import JobEngine.Proofs.Listing
import JobEngine.Proofs.Sql.Table
import JobEngine.Proofs.Store.Calls
import Mathlib.Data.List.Perm.Basic

/-!
# Listing jobs, in a database and in memory

A listing is sent to a database as two statements with one set of conditions, each of them off
where its parameter is missing.  In memory the matches are sorted by creation, turned round if need
be, and cut.

* `selects_row`         the conditions are true of the row of a job that the filter admits;
* `sorted_rows`         rows are ordered as their jobs are;
* `run_listJobs`        what comes of the statements;
* `Database.Mirrors`    a database and a memory that hold the same jobs;
* `listings_agree`      both show the same page.
-/

namespace JobEngine

open Sql

variable {d : Database} {m : Memory} {j k : Job} {q : Query} {f : Filter} {js : List Job}
  {params : List Datum} {p : Nat} {c : Column} {type : String}

/-- The bounds of the page fit into signed numbers of 64 bits. -/
structure Query.FitsLong (q : Query) : Prop where
  offset : 2 * q.offset.toNat < UInt64.size
  limit : ∀ n, q.limit = some n → 2 * n.toNat < UInt64.size

/-! ## conditions -/

namespace Sql

/-- A list of a filter is a condition on a row as it is one on the job. -/
theorem truth_among {α : Type} [DecidableEq α] {r : Row} (write : α → Datum)
    {pack : List α → Datum} {as : Option (List α)} {a : α}
    (hp : argument params p = .ofOption pack as) (hr : r c = write a)
    (hitems : ∀ as, (pack as).items? = some (as.map write)) (hnull : ∀ a, write a ≠ .null)
    (hwrite : ∀ a b, write a = write b → a = b) :
    Condition.truth params r (.among c type p) = some (Filter.holds as (·.contains a)) := by
  show Truth.or (some (argument params p).isNull) ((r c).among (argument params p)) = _
  rw [hp, hr]
  cases as with
  | none => exact Truth.true_or _
  | some as =>
    have hpack : (pack as).isNull = false := decide_eq_false fun h => by
      have := hitems as
      rw [h] at this
      cases this
    have hfound : Datum.null ∉ as.map write := fun h => by
      obtain ⟨b, -, hb⟩ := List.mem_map.mp h
      exact hnull b hb
    have hmem : write a ∈ as.map write ↔ a ∈ as :=
      ⟨fun h => by obtain ⟨b, hb, hab⟩ := List.mem_map.mp h; exact hwrite b a hab ▸ hb,
        List.mem_map_of_mem⟩
    show Truth.or (some (pack as).isNull) ((write a).among (pack as)) = some (as.contains a)
    rw [hpack, Datum.among_eq (hnull a) (hitems as) hfound, Truth.some_or, Bool.false_or,
      List.contains_eq_mem]
    exact congrArg some (decide_eq_decide.mpr hmem)

/-- An instant of a filter is a condition on a row as it is one on the job. -/
theorem truth_atMost {r : Row} {bound : Option Instant} {t : Instant}
    (hp : argument params p = .ofOption .time bound) (hr : r c = .time t) :
    Condition.truth params r (.atMost c type p) =
      some (Filter.holds bound fun u => decide (t ≤ u)) := by
  show Truth.or (some (argument params p).isNull) ((r c).atMost (argument params p)) = _
  rw [hp, hr]
  cases bound with
  | none => exact Truth.true_or _
  | some u => exact Truth.some_or _ _

theorem text_injective {s t : Status} (h : s.text = t.text) : s = t :=
  Option.some.inj (by rw [← Status.ofText?_text s, h, Status.ofText?_text])

/-- The conditions of a filter are true of the row of a job that it admits, whatever the
parameters behind its own. -/
theorem selects_row (f : Filter) (more : List Datum) (j : Job) :
    selects byFilter (filterParams f ++ more) j.row = f.admits j := by
  have hids : Condition.truth (filterParams f ++ more) j.row (.among .id "uuid" 1) =
      some (Filter.holds f.ids (·.contains j.id)) :=
    truth_among .uuid rfl rfl (fun _ => rfl) (by simp) (fun _ _ => Datum.uuid.inj)
  have hprojects : Condition.truth (filterParams f ++ more) j.row (.among .project "text" 2) =
      some (Filter.holds f.projects (·.contains j.project)) :=
    truth_among (fun p : ProjectId => .text p.name) rfl rfl
      (fun ps => congrArg some (List.map_map ..)) (by simp)
      (fun _ _ h => congrArg ProjectId.mk (Datum.text.inj h))
  have hstatuses : Condition.truth (filterParams f ++ more) j.row (.among .status "text" 3) =
      some (Filter.holds f.statuses (·.contains j.status)) :=
    truth_among (fun s : Status => .text s.text) rfl rfl
      (fun ss => congrArg some (List.map_map ..)) (by simp)
      (fun _ _ h => text_injective (Datum.text.inj h))
  have hdue : Condition.truth (filterParams f ++ more) j.row (.atMost .runAt "timestamptz" 4) =
      some (Filter.holds f.dueBy fun t => decide (j.runAt ≤ t)) := truth_atMost rfl rfl
  unfold selects byFilter
  rw [List.map_cons, List.map_cons, List.map_cons, List.map_cons, List.map_nil, hids, hprojects,
    hstatuses, hdue]
  simp [Filter.admits, Bool.and_assoc]

/-! ## order -/

theorem precedes_row (j k : Job) : Sql.precedes j.row k.row = j.precedes k := by
  have hwithin {t u : Instant} : decide ((Datum.time t).atMost (.time u) = some true) =
      decide (t ≤ u) := by simp [Datum.atMost]
  have hid : decide ((Datum.uuid j.id).atMost (.uuid k.id) = some true) =
      decide (j.id ≤ k.id) := by simp [Datum.atMost]
  show (decide ((Datum.time j.created).atMost (.time k.created) = some true) &&
    (!decide ((Datum.time k.created).atMost (.time j.created) = some true) ||
      decide ((Datum.uuid j.id).atMost (.uuid k.id) = some true))) = _
  rw [hwithin, hwithin, hid, Bool.eq_iff_iff, Job.precedes_iff]
  simp [Decidable.imp_iff_not_or]

theorem sorted_rows (o : SortOrder) (js : List Job) :
    sorted o (js.map Job.row) = (js.mergeSort o.before).map Job.row := by
  refine (List.map_mergeSort fun a _ b _ => ?_).symm
  cases o with
  | ascending => exact (precedes_row a b).symm
  | descending => exact (precedes_row b a).symm

/-! ## statements -/

namespace Database

/-- The rows of a page. -/
def shown (d : Database) (q : Query) : List Row :=
  Query.window q.offset.toNat (q.limit.map UInt64.toNat)
    (sorted q.order (d.found byFilter (filterParams q.filter)))

/-- The page between two bounds that can be read. -/
theorem page_of_span? {cs : List Condition} {o : SortOrder} {limit offset : Nat}
    {skip most : Option Nat} (hskip : (argument params offset).span? = some skip)
    (hmost : (argument params limit).span? = some most) :
    d.page cs o limit offset params =
      (.rows (Query.window (skip.getD 0) most (sorted o (d.found cs params))), d) := by
  unfold page
  rw [hskip, hmost]

theorem found_byFilter (d : Database) (f : Filter) (more : List Datum) :
    d.found byFilter (filterParams f ++ more) = d.found byFilter (filterParams f) := by
  obtain ⟨js, hjs⟩ := d.exists_jobs
  refine List.filter_congr fun r hr => ?_
  obtain ⟨j, -, rfl⟩ := List.mem_map.mp (hjs ▸ hr)
  rw [selects_row, ← selects_row f [] j, List.append_nil]

end Database

theorem span?_ofLong {n : UInt64} (h : 2 * n.toNat < UInt64.size) :
    (Datum.ofLong n).span? = some (some n.toNat) := by
  unfold Datum.ofLong
  rw [if_pos h]
  show (if (n.toNat : Int) < 0 then none else _) = _
  rw [if_neg (Int.not_lt.mpr (Int.natCast_nonneg _))]
  rfl

theorem run_listJobs (h : q.FitsLong) :
    d.run (listJobs q) = some
      (((d.shown q).mapM Job.ofRow?).map fun items =>
        ⟨items, UInt64.ofNat (d.found byFilter (filterParams q.filter)).length, q.offset, q.limit⟩,
        d) := by
  let more : List Datum := [.ofOption .ofLong q.limit, .ofLong q.offset]
  have hskip : (argument (filterParams q.filter ++ more) 6).span? = some (some q.offset.toNat) :=
    span?_ofLong h.offset
  have hmost : (argument (filterParams q.filter ++ more) 5).span? =
      some (q.limit.map UInt64.toNat) := by
    show (Datum.ofOption .ofLong q.limit).span? = _
    cases hq : q.limit with
    | none => rfl
    | some n => exact span?_ofLong (h.limit n hq)
  have hpage : d.page byFilter q.order 5 6 (filterParams q.filter ++ more) =
      (.rows (d.shown q), d) := by
    rw [Database.page_of_span? hskip hmost, d.found_byFilter]
    rfl
  have hfound : d.answer ⟨.page byFilter q.order 5 6, filterParams q.filter ++ more⟩ =
      some (.rows (d.shown q), d) := congrArg some hpage
  have hread : (Reply.rows (d.shown q)).orFail "list_jobs" manyJobs =
      (d.shown q).mapM Job.ofRow? := rfl
  show d.run ((send (.page byFilter q.order 5 6) (filterParams q.filter ++ more)).bind _) = _
  rw [Database.run_send, hfound, Option.bind_some]
  dsimp only
  rw [hread]
  cases (d.shown q).mapM Job.ofRow? <;> rfl

/-- The rows of jobs are read back together, or not at all. -/
theorem mapM_ofRow? (js : List Job) :
    (js.map Job.row).mapM Job.ofRow? =
      if js.any fun j => Text.isBlank j.project.name then .error Job.blankOwner
      else .ok js := by
  induction js with
  | nil => rfl
  | cons j js ih =>
    rw [List.map_cons, List.mapM_cons, ih, Job.ofRow?_row, List.any_cons]
    by_cases hj : Text.isBlank j.project.name = true
    · rw [if_pos hj, hj]; rfl
    · rw [if_neg hj, (Bool.not_eq_true _).mp hj, Bool.false_or]
      split <;> rfl

end Sql

/-! ## both -/

namespace Sql.Database

/-- The database and the memory hold the same jobs, each with an owner. -/
structure Mirrors (d : Database) (m : Memory) : Prop where
  rows : d.rows.Perm (m.rows.values.map Job.row)
  owned : ∀ j ∈ m.rows.values, Text.isBlank j.project.name = false

theorem ids_row (js : List Job) :
    (js.map Job.row).map (fun r => r .id) = (js.map Job.id).map Datum.uuid := by
  rw [List.map_map, List.map_map]
  rfl

/-- Any jobs with keys of their own that keep the rules of the table may be held by both. -/
theorem exists_mirrors (hkept : ∀ j ∈ js, j.FitsColumns ∧ 0 < j.tryMax.toNat ∧ j.trys ≤ j.tryMax)
    (howned : ∀ j ∈ js, Text.isBlank j.project.name = false) (hkeys : (js.map Job.id).Nodup) :
    ∃ (d : Database) (m : Memory), m.rows.values = js ∧ d.Mirrors m := by
  have hlawful : ∀ r ∈ js.map Job.row, breach? r = none := by
    intro r hr
    obtain ⟨j, hj, rfl⟩ := List.mem_map.mp hr
    exact Job.breach?_row_eq_none_iff.mpr (hkept j hj)
  have hkeyed : ((js.map Job.row).map fun r => r .id).Nodup := by
    rw [ids_row]
    exact hkeys.map fun _ _ => Datum.uuid.inj
  have hvalues : Table.values (js.map fun j => (j.id, j)) = js := by
    unfold Table.values
    rw [List.map_map]
    exact List.map_id' js
  refine ⟨⟨_, hlawful, hkeyed, Breach.code⟩, { rows := js.map fun j => (j.id, j) }, hvalues, ?_, ?_⟩
  · rw [hvalues]
  · rw [hvalues]
    exact howned

namespace Mirrors

theorem keys (h : d.Mirrors m) : (m.rows.values.map Job.id).Nodup := by
  have hkeyed : ((m.rows.values.map Job.row).map fun r => r .id).Nodup :=
    (h.rows.map fun r => r .id).nodup_iff.mp d.keyed
  rw [ids_row] at hkeyed
  exact hkeyed.of_map _

/-- The jobs of the table, in the order of its rows. -/
theorem exists_perm (h : d.Mirrors m) :
    ∃ js : List Job, d.rows = js.map Job.row ∧ js.Perm m.rows.values := by
  obtain ⟨js, hjs⟩ := d.exists_jobs
  have hrows := h.rows
  rw [hjs] at hrows
  exact ⟨js, hjs, (List.map_perm_map_iff fun _ _ => Job.row_injective).mp hrows⟩

end Mirrors

/-- The rows found are those of the jobs that the filter admits. -/
theorem found_rows (hjs : d.rows = js.map Job.row) (f : Filter) :
    d.found byFilter (filterParams f) = (js.filter f.admits).map Job.row := by
  unfold found
  rw [hjs, List.filter_map]
  refine congrArg (List.map Job.row) (List.filter_congr fun j _ => ?_)
  rw [← selects_row f [] j, List.append_nil]
  rfl

/-- The rows of a page are those of the jobs of the page. -/
theorem shown_rows (hjs : d.rows = js.map Job.row) (q : Query) :
    d.shown q = (Query.window q.offset.toNat (q.limit.map UInt64.toNat)
      ((js.filter q.filter.admits).mergeSort q.order.before)).map Job.row := by
  unfold shown
  rw [found_rows hjs, sorted_rows, Query.window_map]

end Sql.Database

/-- **A listing shows the same in a database and in memory.**  If both hold the same jobs and the
bounds of the page fit into signed numbers, the statements and the memory give one page: the same
jobs in the same order, the same total and the same bounds.  Neither changes what it holds. -/
theorem listings_agree (h : d.Mirrors m) (hq : q.FitsLong) :
    ∃ page, d.run (listJobs q) = some (.ok page, d) ∧
      m.perform (.list q) = (some (.ok page), m) := by
  refine ⟨q.select m.rows.values, ?_, rfl⟩
  obtain ⟨js, hjs, hperm⟩ := h.exists_perm
  have hmatches : (js.filter q.filter.admits).Perm (m.rows.values.filter q.filter.admits) :=
    hperm.filter _
  have hordered : (js.filter q.filter.admits).mergeSort q.order.before =
      q.ordered m.rows.values :=
    Query.eq_ordered h.keys ((List.mergeSort_perm _ _).trans hmatches)
      (q.order.pairwise_mergeSort _)
  have htotal : (d.found byFilter (filterParams q.filter)).length =
      (q.ordered m.rows.values).length := by
    rw [Database.found_rows hjs, List.length_map, hmatches.length_eq, (q.ordered_perm _).length_eq]
  have hshown : d.shown q = (q.select m.rows.values).items.map Job.row := by
    rw [Database.shown_rows hjs, hordered]
    rfl
  have howned : ((q.select m.rows.values).items.any fun j => Text.isBlank j.project.name) = false :=
    List.any_eq_false.mpr fun j hj => by
      have hj := (q.ordered_perm _).mem_iff.mp (Query.mem_of_mem_window hj)
      rw [h.owned j (List.mem_filter.mp hj).1]
      exact Bool.false_ne_true
  rw [run_listJobs hq, hshown, mapM_ofRow?, howned, htotal]
  rfl

/-- Three jobs of one moment, of which one is running. -/
def Sql.twin : Job := { Memory.sample with id := ⟨2#128⟩ }

def Sql.runningTwin : Job := { Memory.sample with id := ⟨3#128⟩, status := .running }

/-- At most two of the jobs that wait, the last first. -/
def Sql.waitingTwins : Query where
  filter := { statuses := some [.pending] }
  limit := some 2

theorem waiting_twins_agree :
    let d : Database := { rows := [runningTwin.row, twin.row, Memory.sample.row] }
    let m : Memory := { rows := [Memory.sample, runningTwin, twin].map fun j => (j.id, j) }
    let page : Page := { items := [twin, Memory.sample], total := 2, offset := 0, limit := some 2 }
    d.run (listJobs waitingTwins) = some (.ok page, d) ∧
      m.perform (.list waitingTwins) = (some (.ok page), m) := by
  intro d m page
  have hmirrors : d.Mirrors m :=
    ⟨(List.perm_append_comm : ([runningTwin.row, twin.row] ++ [Memory.sample.row]).Perm _),
      by decide⟩
  have hordered : [twin, Memory.sample] = waitingTwins.ordered m.rows.values :=
    Query.eq_ordered (by decide) (List.Perm.swap ..) (by decide)
  have hfits : waitingTwins.FitsLong := ⟨by decide, fun n hn => Option.some.inj hn ▸ by decide⟩
  obtain ⟨page', hrun, hperform⟩ := listings_agree hmirrors hfits
  have hpage : page' = page := by
    obtain rfl := Except.ok.inj (Option.some.inj (Prod.mk.inj hperform).1)
    unfold Query.select
    rw [← hordered]
    rfl
  exact hpage ▸ ⟨hrun, hperform⟩

end JobEngine
