import JobEngine.Proofs.Sql.Table
import JobEngine.Proofs.Store.Calls

/-!
# Changing a row, in a database and in memory

A set of changes is sent to a database as one statement, whose parameters leave a column alone or
set it, perhaps to the missing value.  In memory it is applied to the record.

* `rewrite_row`                       the row of a job becomes the row of the job changed;
* `update_made`, `update_refused`     what comes of the statement;
* `updates_agree`                     both change the same, or both refuse.
-/

namespace JobEngine

open Sql

variable {d : Database} {m : Memory} {s : SessionId} {id : JobId} {j : Job} {c : Changes}

/-! ## in a database -/

/-- The new count of attempts fits its column, if there is one. -/
def Changes.FitsColumn (c : Changes) : Prop := ∀ n, c.trys = some n → 2 * n.toNat < UInt32.size

namespace Sql

/-- The parameters of an update whose count of attempts fits. -/
def paramsOf (id : JobId) (c : Changes) : List Datum :=
  [.uuid id, .ofOption (fun s => .text s.text) c.status, .ofOption .time c.runAt,
    .ofOption (fun n : UInt32 => .int n.toNat) c.trys, .bool c.error.isSome,
    .ofOption .text (c.error.getD none), .ofOption .json c.params, .bool c.result.isSome,
    .ofOption .json (c.result.getD none), .ofOption .time c.updated]

theorem updateParams_eq (h : c.FitsColumn) : updateParams id c = .ok (paramsOf id c) := by
  unfold updateParams
  cases hc : c.trys with
  | none => unfold paramsOf; rw [hc]; rfl
  | some n =>
    show (counter .trys n).bind _ = _
    rw [counter_of_lt (h n hc)]
    unfold paramsOf
    rw [hc]
    rfl

/-- A count that does not fit is refused before the statement is sent. -/
theorem updateParams_refused (id : JobId) {n : UInt32} (hc : c.trys = some n)
    (hn : ¬ 2 * n.toNat < UInt32.size) : ∃ t, updateParams id c = .error (.constraint t) := by
  obtain ⟨t, ht⟩ := counter_of_not_lt .trys hn
  refine ⟨t, ?_⟩
  unfold updateParams
  rw [hc]
  show (counter .trys n).bind _ = _
  rw [ht]
  rfl

/-- A setting that keeps the value where the parameter is missing. -/
theorem value_orKeep {α : Type} {params : List Datum} {p : Nat} {old : Datum} (write : α → Datum)
    {new : Option α} {a : α} (hp : argument params p = .ofOption write new)
    (hold : old = write a) (hnull : ∀ a, write a ≠ .null) :
    (Setting.orKeep p).value params old = write (new.getD a) := by
  show (if (argument params p).isNull then old else argument params p) = _
  rw [hp, hold]
  cases new with
  | none => rfl
  | some b => exact if_neg fun h => hnull b (of_decide_eq_true h)

/-- A setting that a truth value turns on. -/
theorem value_when {α : Type} {params : List Datum} {t p : Nat} {old : Datum} {write : α → Datum}
    {new : Option (Option α)} {o : Option α} (ht : argument params t = .bool new.isSome)
    (hp : argument params p = .ofOption write (new.getD none)) (hold : old = .ofOption write o) :
    (Setting.when t p).value params old = .ofOption write (new.getD o) := by
  show (if argument params t = .bool true then argument params p else old) = _
  rw [ht, hp, hold]
  cases new <;> rfl

theorem rewrite_row (id : JobId) (c : Changes) (j : Job) :
    rewrite updateSettings (paramsOf id c) j.row = (c.overwrite j).row := by
  funext column
  cases column with
  | status => exact value_orKeep (fun s : Status => .text s.text) rfl rfl (by simp)
  | runAt => exact value_orKeep .time rfl rfl (by simp)
  | trys => exact value_orKeep (fun n : UInt32 => .int n.toNat) rfl rfl (by simp)
  | error => exact value_when rfl rfl rfl
  | params => exact value_orKeep .json rfl rfl (by simp)
  | result => exact value_when rfl rfl rfl
  | updated => exact value_orKeep .time rfl rfl (by simp)
  | _ => rfl

/-- The row that stands for a row behind an update of the job under `id`. -/
def updated (id : JobId) (new : Row) (r : Row) : Row := if r .id = .uuid id then new else r

theorem run_updateJob_fitting (hj : j.row ∈ d.rows) (hc : c.FitsColumn) :
    d.run (updateJob j.id c) = some
      (match d.file (d.rows.map (updated j.id (c.overwrite j).row)) with
        | .ok d' => (.ok 1, d')
        | .error b => (.error ((Failure.refused b.code (d.wording b)).error "update_job"), d)) := by
  have hselects (r : Row) : selects byId (paramsOf j.id c) r = decide (r .id = .uuid j.id) :=
    Database.selects_byId ..
  have hrows : d.rows.map (fun r => if selects byId (paramsOf j.id c) r then
        rewrite updateSettings (paramsOf j.id c) r else r)
      = d.rows.map (updated j.id (c.overwrite j).row) := by
    refine List.map_congr_left fun r hr => ?_
    unfold updated
    by_cases hid : r .id = .uuid j.id
    · obtain rfl : r = j.row := d.eq_of_id hr hj hid
      rw [if_pos hid, hselects, decide_eq_true hid, if_pos rfl, rewrite_row]
    · rw [if_neg hid, hselects, decide_eq_false hid]
      exact if_neg Bool.false_ne_true
  have hfound : (d.found byId (paramsOf j.id c)).length = 1 := by
    rw [show d.found byId (paramsOf j.id c) = [j.row] from Database.found_byId hj rfl _]
    rfl
  have hanswer : d.answer ⟨.update updateSettings byId, paramsOf j.id c⟩ =
      some (d.change (d.rows.map (updated j.id (c.overwrite j).row)) 1) := by
    show some (d.change (d.rows.map _) (d.found byId (paramsOf j.id c)).length) = _
    rw [hfound, hrows]
  unfold updateJob
  rw [updateParams_eq hc]
  show d.run ((send (.update updateSettings byId) (paramsOf j.id c)).bind _) = _
  rw [Database.run_send, hanswer]
  unfold Database.change
  cases d.file (d.rows.map (updated j.id (c.overwrite j).row)) <;> rfl

theorem keyed_updated (d : Database) {new : Row} (hnew : new .id = .uuid id) :
    ((d.rows.map (updated id new)).map fun r => r .id).Nodup := by
  have hids : (d.rows.map (updated id new)).map (fun r => r .id) = d.rows.map fun r => r .id := by
    rw [List.map_map]
    refine List.map_congr_left fun r _ => ?_
    show (updated id new r) .id = r .id
    unfold updated
    split
    · next h => rw [hnew, h]
    · rfl
  rw [hids]
  exact d.keyed

theorem fitsColumns_overwrite (hj : j.FitsColumns) (hc : c.FitsColumn) :
    (c.overwrite j).FitsColumns := by
  refine ⟨hj.tryPeriod, hj.tryMax, ?_⟩
  show 2 * (c.trys.getD j.trys).toNat < UInt32.size
  cases h : c.trys with
  | none => exact hj.trys
  | some n => exact hc n h

theorem mem_updated {rows : List Row} {new r : Row} :
    r ∈ rows.map (updated id new) ↔
      (r = new ∧ ∃ r₀ ∈ rows, r₀ .id = .uuid id) ∨ (r ∈ rows ∧ r .id ≠ .uuid id) := by
  rw [List.mem_map]
  constructor
  · rintro ⟨r₀, hr₀, rfl⟩
    unfold updated
    by_cases hid : r₀ .id = .uuid id
    · exact Or.inl ⟨if_pos hid, r₀, hr₀, hid⟩
    · rw [if_neg hid]
      exact Or.inr ⟨hr₀, hid⟩
  · rintro (⟨rfl, r₀, hr₀, hid⟩ | ⟨hr, hid⟩)
    · exact ⟨r₀, hr₀, if_pos hid⟩
    · exact ⟨r, hr, if_neg hid⟩

/-- A change that keeps to the attempts that the job has is made. -/
theorem update_made (hj : j.row ∈ d.rows) (ho : ¬ c.Oversteps j) :
    ∃ d', d.run (updateJob j.id c) = some (.ok 1, d') ∧
      d'.rows = d.rows.map (updated j.id (c.overwrite j).row) := by
  obtain ⟨hfits, hmax, htrys⟩ := Job.breach?_row_eq_none_iff.mp (d.lawful _ hj)
  have hle {n : UInt32} (hn : c.trys = some n) : n ≤ j.tryMax :=
    UInt32.not_lt.mp fun h => ho ⟨n, hn, h⟩
  have hc : c.FitsColumn := fun n hn => by
    have := UInt32.le_iff_toNat_le.mp (hle hn)
    have := hfits.tryMax
    omega
  have hnew : breach? (c.overwrite j).row = none := by
    refine Job.breach?_row_eq_none_iff.mpr ⟨fitsColumns_overwrite hfits hc, hmax, ?_⟩
    show c.trys.getD j.trys ≤ j.tryMax
    cases h : c.trys with
    | none => exact htrys
    | some n => exact hle h
  have hlawful : ∀ r ∈ d.rows.map (updated j.id (c.overwrite j).row), breach? r = none := by
    intro r hr
    obtain ⟨r₀, hr₀, rfl⟩ := List.mem_map.mp hr
    unfold updated
    split
    · exact hnew
    · exact d.lawful r₀ hr₀
  refine ⟨⟨_, hlawful, keyed_updated d rfl, d.wording⟩, ?_, rfl⟩
  rw [run_updateJob_fitting hj hc, Database.file_eq hlawful (keyed_updated d rfl)]

/-- A change that oversteps the attempts that the job has is refused, by its column or by the check
of the table. -/
theorem update_refused (hj : j.row ∈ d.rows) (ho : c.Oversteps j) :
    ∃ t, d.run (updateJob j.id c) = some (.error (.constraint t), d) := by
  obtain ⟨n, hn, hlt⟩ := ho
  by_cases hfit : 2 * n.toNat < UInt32.size
  · obtain ⟨hfits, hmax, -⟩ := Job.breach?_row_eq_none_iff.mp (d.lawful _ hj)
    have hc : c.FitsColumn := fun k hk => by
      obtain rfl := Option.some.inj (hn.symm.trans hk)
      exact hfit
    have hbreach : breach? (c.overwrite j).row = some (.check .trys) := by
      have htrys : ¬ (c.overwrite j).trys ≤ (c.overwrite j).tryMax := by
        show ¬ c.trys.getD j.trys ≤ j.tryMax
        rw [hn]
        exact UInt32.not_le.mpr hlt
      have hmax' : 0 < (c.overwrite j).tryMax.toNat := hmax
      rw [Job.breach?_row (fitsColumns_overwrite hfits hc), if_pos hmax', if_neg htrys]
    have hmem : (c.overwrite j).row ∈ d.rows.map (updated j.id (c.overwrite j).row) :=
      List.mem_map.mpr ⟨j.row, hj, if_pos rfl⟩
    have hrest : ∀ r ∈ d.rows.map (updated j.id (c.overwrite j).row),
        breach? r = none ∨ breach? r = some (.check .trys) := by
      intro r hr
      obtain ⟨r₀, hr₀, rfl⟩ := List.mem_map.mp hr
      unfold updated
      split
      · exact Or.inr hbreach
      · exact Or.inl (d.lawful r₀ hr₀)
    refine ⟨"database error in update_job: " ++ d.wording (.check .trys), ?_⟩
    rw [run_updateJob_fitting hj hc, Database.file_breach hmem hbreach hrest]
    rfl
  · obtain ⟨t, ht⟩ := updateParams_refused j.id hn hfit
    refine ⟨t, ?_⟩
    unfold updateJob
    rw [ht]
    rfl

end Sql

/-! ## both -/

/-- **A change comes to the same in a database and in memory.**  A set of changes of a stored job is
made by both or refused by both.  If it keeps to the attempts that the job has, each reports one
row; if it oversteps them, each says that it breaks a constraint, and the record is as before.
Behind it both hold the same record under the job's key, and all others are as before. -/
theorem updates_agree (hrow : j.row ∈ d.rows) (hseen : m.current s j.id = some j)
    (hlock : (m.acquire s j.id).1 = .held) (c : Changes) :
    ∃ a d' b m', d.run (updateJob j.id c) = some (a, d') ∧ m.update s j.id c = (some b, m') ∧
      (¬ c.Oversteps j ∧ a = .ok 1 ∧ b = .ok 1 ∧ m'.current s j.id = some (c.overwrite j) ∨
        c.Oversteps j ∧ (∃ t, a = .error (.constraint t)) ∧ (∃ t, b = .error (.constraint t)) ∧
          m'.current s j.id = some j) ∧
      (∀ k : Job, k.id = j.id → (k.row ∈ d'.rows ↔ m'.current s j.id = some k)) ∧
      (∀ r, r .id ≠ .uuid j.id → (r ∈ d'.rows ↔ r ∈ d.rows)) ∧
      ∀ id, id ≠ j.id → m'.current s id = m.current s id := by
  have hmemory := Memory.update_seen (c := c) hseen hlock
  by_cases ho : c.Oversteps j
  · rw [if_pos ho] at hmemory
    obtain ⟨t, hrun⟩ := update_refused hrow ho
    obtain ⟨t', m', hupdate, hcurrent⟩ := hmemory
    refine ⟨_, d, _, m', hrun, hupdate, Or.inr ⟨ho, ⟨t, rfl⟩, ⟨t', rfl⟩, ?_⟩, fun k hk => ?_,
      fun r _ => Iff.rfl, fun id _ => hcurrent id⟩
    · rw [hcurrent, hseen]
    · rw [hcurrent, hseen]
      constructor
      · intro hkrow
        have hid : j.row .id = k.row .id := congrArg Datum.uuid hk.symm
        exact congrArg some (Job.row_injective (d.eq_of_id hrow hkrow hid))
      · intro hjk
        exact Option.some.inj hjk ▸ hrow
  · rw [if_neg ho] at hmemory
    obtain ⟨d', hrun, hrows⟩ := update_made hrow ho
    obtain ⟨m', hupdate, hcurrent⟩ := hmemory
    have hnew : m'.current s j.id = some (c.overwrite j) := by rw [hcurrent, if_pos rfl]
    refine ⟨_, d', _, m', hrun, hupdate, Or.inl ⟨ho, rfl, rfl, hnew⟩, fun k hk => ?_,
      fun r hr => ?_, fun id hid => ?_⟩
    · rw [hnew, hrows, mem_updated]
      constructor
      · rintro (⟨hkrow, -⟩ | ⟨-, hid⟩)
        · exact congrArg some (Job.row_injective hkrow).symm
        · exact absurd (congrArg Datum.uuid hk) hid
      · intro hjk
        exact Or.inl ⟨Option.some.inj hjk ▸ rfl, j.row, hrow, rfl⟩
    · rw [hrows, mem_updated]
      constructor
      · rintro (⟨rfl, -⟩ | ⟨h, -⟩)
        · exact absurd rfl hr
        · exact h
      · exact fun h => Or.inr ⟨h, hr⟩
    · rw [hcurrent, if_neg (Ne.symm hid)]

/-- A job that takes a first attempt.  A JSON `null` is kept as a value, a missing error clears. -/
def firstAttempt : Changes where
  status := some .running
  trys := some 1
  error := some none
  params := some .null
  result := some (some .null)

theorem null_result_is_kept :
    let d : Database := { rows := [Memory.sample.row] }
    let m : Memory := { rows := [(Memory.sample.id, Memory.sample)], sessions := [(1, {})] }
    ∃ d' m', d.run (updateJob Memory.sample.id firstAttempt) = some (.ok 1, d') ∧
      m.update 1 Memory.sample.id firstAttempt = (some (.ok 1), m') ∧
      (firstAttempt.overwrite Memory.sample).row ∈ d'.rows ∧
      m'.current 1 Memory.sample.id = some (firstAttempt.overwrite Memory.sample) ∧
      (firstAttempt.overwrite Memory.sample).result = some .null := by
  intro d m
  have hrow : Memory.sample.row ∈ d.rows := List.mem_cons_self
  have hseen : m.current 1 Memory.sample.id = some Memory.sample := by decide
  have hlock : (m.acquire 1 Memory.sample.id).1 = .held := by decide
  obtain ⟨a, d', b, m', hrun, hupdate, hmade | ⟨ho, -⟩, hsame, -⟩ :=
    updates_agree hrow hseen hlock firstAttempt
  · obtain ⟨-, rfl, rfl, hnew⟩ := hmade
    exact ⟨d', m', hrun, hupdate, (hsame (firstAttempt.overwrite _) rfl).mpr hnew, hnew, rfl⟩
  · exact absurd ho (by decide)

end JobEngine
