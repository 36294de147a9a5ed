import JobEngine.Job.Codec
import JobEngine.Proofs.Sql.Listing

/-!
# Reading back what was added

A blank name of an owner is refused where a row is read.  It is not refused where a row is added,
and a record that comes from outside may have one.

* `run_listJobs_shown`            a page fails for a row with a blank owner, and for no other;
* `accepted_jobs_are_read_back`   a job that was accepted is read back unless its owner is blank;
* `blank_owner_is_lost`           a job that was accepted and cannot be read.
-/

namespace JobEngine

open Sql

variable {d d' : Database} {j : Job} {id : JobId} {q : Query}

namespace Sql

/-- A page is read job by job, and fails if one of them has a blank owner. -/
theorem run_listJobs_shown (d : Database) (h : q.FitsLong) :
    ((∃ k : Job, k.row ∈ d.shown q ∧ Text.isBlank k.project.name) ∧
        d.run (listJobs q) = some (.error Job.blankOwner, d)) ∨
      ((∀ k : Job, k.row ∈ d.shown q → Text.isBlank k.project.name = false) ∧
        ∃ page, d.run (listJobs q) = some (.ok page, d) ∧
          ∀ k : Job, k ∈ page.items ↔ k.row ∈ d.shown q) := by
  obtain ⟨js, hjs⟩ := d.exists_jobs
  obtain ⟨ks, hks⟩ : ∃ ks : List Job, d.shown q = ks.map Job.row := ⟨_, Database.shown_rows hjs q⟩
  have hmem (k : Job) : k.row ∈ d.shown q ↔ k ∈ ks := by
    rw [hks]
    exact List.mem_map_of_injective fun _ _ => Job.row_injective
  rw [run_listJobs h, hks, mapM_ofRow?, ← hks]
  cases hblank : ks.any fun k => Text.isBlank k.project.name with
  | true =>
    obtain ⟨k, hk, hname⟩ := List.any_eq_true.mp hblank
    exact Or.inl ⟨⟨k, (hmem k).mpr hk, hname⟩, rfl⟩
  | false =>
    have hnames := List.any_eq_false.mp hblank
    exact Or.inr ⟨fun k hk => (Bool.not_eq_true _).mp (hnames k ((hmem k).mp hk)),
      _, rfl, fun k => (hmem k).symm⟩

end Sql

/-- **What a database accepts it gives back, unless its owner is blank.**  A job that was accepted
is stored under its key.  Its values make the job again, and a read under the key answers with it,
exactly if the owner's name is not blank; else the row is corrupt for both.  A page is corrupt
exactly if it shows a job with a blank owner; else it has the jobs of the rows that it shows. -/
theorem accepted_jobs_are_read_back (h : d.run (insertJob j) = some (.ok id, d')) :
    id = j.id ∧ j.toRow? = .ok j.row ∧ d'.rows = d.rows ++ [j.row] ∧
      (Text.isBlank j.project.name = false →
        Job.ofRow? j.row = .ok j ∧ ∀ lock, d'.run (fetchJob id lock) = some (.ok (some j), d')) ∧
      (Text.isBlank j.project.name = true →
        Job.ofRow? j.row = .error Job.blankOwner ∧
          ∀ lock, d'.run (fetchJob id lock) = some (.error Job.blankOwner, d')) ∧
      ∀ q : Query, q.FitsLong →
        ((∃ k : Job, k.row ∈ d'.shown q ∧ Text.isBlank k.project.name) ∧
            d'.run (listJobs q) = some (.error Job.blankOwner, d')) ∨
          ((∀ k : Job, k.row ∈ d'.shown q → Text.isBlank k.project.name = false) ∧
            ∃ page, d'.run (listJobs q) = some (.ok page, d') ∧
              ∀ k : Job, k ∈ page.items ↔ k.row ∈ d'.shown q) := by
  obtain ⟨rfl, hrows⟩ := Database.of_run_insertJob h
  have hmem : j.row ∈ d'.rows := hrows ▸ List.mem_append_right _ List.mem_cons_self
  have hfits : j.FitsColumns := (Job.breach?_row_eq_none_iff.mp (d'.lawful _ hmem)).1
  have hread := Job.ofRow?_row j
  refine ⟨rfl, Job.toRow?_of_fits hfits, hrows, fun hname => ?_, fun hname => ?_,
    fun q => run_listJobs_shown d'⟩
  · rw [hname] at hread
    exact ⟨hread, fun lock => by rw [Database.run_fetchJob hmem, hread]; rfl⟩
  · rw [hname] at hread
    exact ⟨hread, fun lock => by rw [Database.run_fetchJob hmem, hread]; rfl⟩

theorem sample_is_read_back :
    ∃ d' : Database, ({} : Database).run (insertJob Memory.sample) =
        some (.ok Memory.sample.id, d') ∧
      ∀ lock, d'.run (fetchJob Memory.sample.id lock) = some (.ok (some Memory.sample), d') := by
  obtain ⟨d', hinsert, -⟩ :=
    Database.insert_accepted {} (show breach? Memory.sample.row = none by decide) nofun
  obtain ⟨-, -, -, hnamed, -⟩ := accepted_jobs_are_read_back hinsert
  exact ⟨_, hinsert, (hnamed (by decide)).2⟩

/-- A request of an owner whose name is empty. -/
def ownerless (p : ProjectId) : NewJob where
  action := "echo"
  params := .null
  project := p

theorem blank_owner_is_lost :
    ∃ (p : ProjectId) (j : Job) (d : Database), ProjectId.ofJson? (.str "") = some p ∧
      (ownerless p).toJob ⟨1#128⟩ .epoch = .ok j ∧
      ({} : Database).run (insertJob j) = some (.ok j.id, d) ∧
      Job.ofRow? j.row = .error Job.blankOwner ∧
      (∀ lock, d.run (fetchJob j.id lock) = some (.error Job.blankOwner, d)) ∧
      d.run (listJobs {}) = some (.error Job.blankOwner, d) := by
  let j : Job := { Memory.sample with project := ⟨""⟩ }
  obtain ⟨d, hinsert, hrows⟩ :=
    Database.insert_accepted {} (show breach? j.row = none by decide) nofun
  have hmem : j.row ∈ d.rows := hrows ▸ List.mem_cons_self
  have hread : Job.ofRow? j.row = .error Job.blankOwner := by
    rw [Job.ofRow?_row]
    exact if_pos (by decide)
  have hshown : j.row ∈ d.shown {} := by
    have hjs : d.rows = [j].map Job.row := hrows
    rw [Database.shown_rows hjs, List.filter_cons_of_pos (by decide), List.filter_nil,
      List.mergeSort_singleton]
    exact List.mem_cons_self
  refine ⟨⟨""⟩, j, d, rfl, by decide, hinsert, hread, fun lock => ?_, ?_⟩
  · rw [Database.run_fetchJob hmem, hread]
    rfl
  · have hfits : Query.FitsLong {} := ⟨by decide, fun n hn => Option.some.inj hn ▸ by decide⟩
    rcases run_listJobs_shown d hfits with ⟨-, hlost⟩ | ⟨hnamed, -⟩
    · exact hlost
    · exact absurd (hnamed j hshown) (by decide)

end JobEngine
