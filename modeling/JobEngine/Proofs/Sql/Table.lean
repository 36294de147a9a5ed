import JobEngine.Proofs.Sql.Rows
import Mathlib.Data.List.Nodup

/-!
# The table of jobs under statements

* `Database.file_eq`, `Database.file_breach`   rows that are filed, and rows that are refused;
* `Database.exists_jobs`                       the rows are those of jobs;
* `Database.found_byId`                        the row under a key;
* `Database.run_fetchJob`, `Database.run_insertJob`   reading one row and adding one;
* `Database.insert_accepted`                   the jobs that are accepted.
-/

namespace JobEngine.Sql

variable {d d' : Database} {j : Job} {r : Row} {id : JobId}

/-! ## filing rows -/

namespace Database

theorem file_eq {rows : List Row} (h : ∀ r ∈ rows, breach? r = none)
    (hk : (rows.map fun r => r .id).Nodup) : d.file rows = .ok ⟨rows, h, hk, d.wording⟩ := by
  have hno : rows.findSome? breach? = none := List.findSome?_eq_none_iff.mpr h
  unfold file
  split
  · next b hb => rw [hno] at hb; cases hb
  · exact dif_pos hk

theorem of_file_eq_ok {rows : List Row} (h : d.file rows = .ok d') : d'.rows = rows := by
  unfold file at h
  split at h
  · cases h
  · split at h
    · exact Except.ok.inj h ▸ rfl
    · cases h

/-- Rows that break one rule, all of them the same, are refused for it. -/
theorem file_breach {rows : List Row} {b : Breach} (hr : r ∈ rows) (hb : breach? r = some b)
    (hrest : ∀ r ∈ rows, breach? r = none ∨ breach? r = some b) : d.file rows = .error b := by
  have hsome : rows.findSome? breach? = some b := by
    induction rows with
    | nil => cases hr
    | cons x rows ih =>
      rw [List.findSome?_cons]
      rcases hrest x List.mem_cons_self with hx | hx
      · rw [hx]
        rcases List.mem_cons.mp hr with rfl | hr
        · rw [hb] at hx; cases hx
        · exact ih hr fun r hr => hrest r (List.mem_cons_of_mem _ hr)
      · rw [hx]
  unfold file
  split
  · next b' hb' =>
    rw [hsome] at hb'
    exact congrArg Except.error (Option.some.inj hb').symm
  · next hno => rw [hsome] at hno; cases hno

/-! ## rows and jobs -/

/-- The table holds the rows of jobs. -/
theorem exists_jobs (d : Database) : ∃ js : List Job, d.rows = js.map Job.row := by
  have h := d.lawful
  generalize d.rows = rows at h
  induction rows with
  | nil => exact ⟨[], rfl⟩
  | cons r rows ih =>
    obtain ⟨j, rfl⟩ := Job.exists_row (h r List.mem_cons_self)
    obtain ⟨js, rfl⟩ := ih fun r hr => h r (List.mem_cons_of_mem _ hr)
    exact ⟨j :: js, rfl⟩

theorem eq_of_id {r' : Row} (hr : r ∈ d.rows) (hr' : r' ∈ d.rows) (h : r .id = r' .id) : r = r' :=
  List.inj_on_of_nodup_map d.keyed hr hr' h

/-! ## one row -/

theorem selects_byId (id : JobId) (ps : List Datum) (r : Row) :
    selects byId (.uuid id :: ps) r = decide (r .id = .uuid id) := by
  have htruth : Condition.truth (.uuid id :: ps) r (.equals .id 1) = (r .id).equals (.uuid id) :=
    rfl
  unfold selects byId
  rw [List.map_cons, List.map_nil, List.foldr_cons, List.foldr_nil, htruth]
  refine decide_eq_decide.mpr ?_
  by_cases hnull : r .id = .null
  · have hunknown : Datum.null.equals (.uuid id) = none := rfl
    rw [hnull, hunknown]
    simp [Truth.and]
  · rw [Datum.equals_of_ne hnull (by simp), Truth.some_and]
    simp

theorem found_byId (hr : r ∈ d.rows) (hid : r .id = .uuid id) (ps : List Datum) :
    d.found byId (.uuid id :: ps) = [r] := by
  obtain ⟨as, bs, hrows⟩ := List.append_of_mem hr
  have hk := d.keyed
  rw [hrows, List.map_append, List.map_cons, List.nodup_append, List.nodup_cons] at hk
  obtain ⟨-, ⟨hbs, -⟩, has⟩ := hk
  have hself : selects byId (.uuid id :: ps) r = true := by rw [selects_byId, hid]; simp
  have hother {r' : Row} (hne : r' .id ≠ r .id) : selects byId (.uuid id :: ps) r' = false := by
    rw [selects_byId]
    exact decide_eq_false (hid ▸ hne)
  have hno_as : as.filter (selects byId (.uuid id :: ps)) = [] :=
    List.filter_eq_nil_iff.mpr fun r' hr' => by
      rw [hother (has _ (List.mem_map_of_mem hr') _ List.mem_cons_self)]; simp
  have hno_bs : bs.filter (selects byId (.uuid id :: ps)) = [] :=
    List.filter_eq_nil_iff.mpr fun r' hr' => by
      rw [hother fun h => hbs (h ▸ List.mem_map_of_mem hr')]; simp
  unfold found
  rw [hrows, List.filter_append, List.filter_cons, hself, hno_as, hno_bs]
  rfl

/-! ## programs -/

theorem run_send {α : Type} (s : Statement) (ps : List Datum) (k : Reply → Program Server α) :
    d.run ((send s ps).bind k) = (d.answer ⟨s, ps⟩).bind fun x => x.2.run (k x.1) := rfl

theorem run_fetchJob (hj : j.row ∈ d.rows) (lock : Bool) :
    d.run (fetchJob j.id lock) = some ((Job.ofRow? j.row).map some, d) := by
  show ((d.answer ⟨.select byId lock, [.uuid j.id]⟩).bind fun x =>
    x.2.run (.done (x.1.orFail "get_job" oneJob))) = _
  show some (Reply.orFail "get_job" (.rows (d.found byId [.uuid j.id])) oneJob, d) = _
  rw [found_byId hj rfl]
  rfl

theorem rowOf_values (r : Row) : rowOf (Column.all.map r) = r := by
  funext c
  cases c <;> rfl

/-- A job whose counters fit is accepted with its row added, or refused for the rows there would
be. -/
theorem run_insertJob (h : j.FitsColumns) :
    d.run (insertJob j) = some
      (match d.file (d.rows ++ [j.row]) with
        | .ok d' => (.ok j.id, d')
        | .error b =>
          (if b = .duplicate then .error (.alreadyExists j.id)
            else .error ((Failure.refused b.code (d.wording b)).error "insert_job"), d)) := by
  have hanswer : d.answer ⟨.insert, Column.all.map j.row⟩ =
      some (d.change (d.rows ++ [j.row]) 1) := by
    show some (d.change (d.rows ++ [rowOf (Column.all.map j.row)]) 1) = _
    rw [rowOf_values]
  unfold insertJob
  rw [Job.toRow?_of_fits h]
  show d.run ((send .insert (Column.all.map j.row)).bind _) = _
  rw [run_send, hanswer]
  unfold change
  cases d.file (d.rows ++ [j.row]) with
  | ok d' => rfl
  | error b => cases b <;> rfl

/-- A job that keeps the rules is accepted under a new key. -/
theorem insert_accepted (d : Database) (hj : breach? j.row = none)
    (hnew : ∀ r ∈ d.rows, r .id ≠ .uuid j.id) :
    ∃ d', d.run (insertJob j) = some (.ok j.id, d') ∧ d'.rows = d.rows ++ [j.row] := by
  have hlawful : ∀ r ∈ d.rows ++ [j.row], breach? r = none := by
    intro r hr
    rcases List.mem_append.mp hr with hr | hr
    · exact d.lawful r hr
    · exact List.mem_singleton.mp hr ▸ hj
  have hkeyed : ((d.rows ++ [j.row]).map fun r => r .id).Nodup := by
    rw [List.map_append]
    refine List.nodup_append.mpr ⟨d.keyed, List.nodup_singleton _, fun a ha b hb hab => ?_⟩
    obtain ⟨r, hr, rfl⟩ := List.mem_map.mp ha
    exact hnew r hr (hab.trans (List.mem_singleton.mp hb))
  refine ⟨⟨_, hlawful, hkeyed, d.wording⟩, ?_, rfl⟩
  rw [run_insertJob (Job.breach?_row_eq_none_iff.mp hj).1, file_eq hlawful hkeyed]

/-- A job that is accepted fits its columns and is the only one under its key; its row is added. -/
theorem of_run_insertJob {a : JobId} (h : d.run (insertJob j) = some (.ok a, d')) :
    a = j.id ∧ d'.rows = d.rows ++ [j.row] := by
  cases hrow : j.toRow? with
  | error e =>
    unfold insertJob at h
    rw [hrow] at h
    cases h
  | ok r =>
    rw [run_insertJob (Job.toRow?_eq_ok_iff.mp hrow).1] at h
    cases hfile : d.file (d.rows ++ [j.row]) with
    | ok d₁ =>
      rw [hfile] at h
      obtain ⟨ha, rfl⟩ := Prod.mk.inj (Option.some.inj h)
      exact ⟨(Except.ok.inj ha).symm, of_file_eq_ok hfile⟩
    | error b =>
      rw [hfile] at h
      obtain ⟨ha, -⟩ := Prod.mk.inj (Option.some.inj h)
      split at ha <;> cases ha

end Database

end JobEngine.Sql
