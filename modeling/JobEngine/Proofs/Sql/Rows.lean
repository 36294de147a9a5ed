import JobEngine.Sql.Database

/-!
# Jobs and the rows of their table

* `Job.FitsColumns`, `Job.row`   counters that their columns can hold, and the row of a job;
* `Job.toRow?_eq_ok_iff`         what is written of a job;
* `Job.ofRow?_row`               what is read of the row of a job;
* `Job.breach?_row_eq_none_iff`  the jobs whose rows keep the rules of the table;
* `Job.exists_row`               a row that keeps the rules is the row of a job.
-/

namespace JobEngine

open Sql

namespace Job

/-- The columns of whole numbers can hold the counters. -/
structure FitsColumns (j : Job) : Prop where
  tryPeriod : 2 * j.tryPeriod.toNat < UInt32.size
  tryMax : 2 * j.tryMax.toNat < UInt32.size
  trys : 2 * j.trys.toNat < UInt32.size

/-- The values of a job, column by column. -/
def row (j : Job) : Row
  | .id => .uuid j.id
  | .project => .text j.project.name
  | .action => .text j.action
  | .status => .text j.status.text
  | .params => .json j.params
  | .result => .ofOption .json j.result
  | .error => .ofOption .text j.error
  | .runAt => .time j.runAt
  | .tryPeriod => .int j.tryPeriod.toNat
  | .tryMax => .int j.tryMax.toNat
  | .trys => .int j.trys.toNat
  | .created => .time j.created
  | .updated => .time j.updated

end Job

variable {j k : Job} {r : Row}

/-! ## writing -/

theorem counter_of_lt {column : Column} {n : UInt32} (h : 2 * n.toNat < UInt32.size) :
    counter column n = .ok (.int n.toNat) := if_pos h

theorem counter_of_not_lt (column : Column) {n : UInt32} (h : ¬ 2 * n.toNat < UInt32.size) :
    ∃ t, counter column n = .error (.constraint t) := ⟨_, if_neg h⟩

namespace Job

theorem toRow?_of_fits (h : j.FitsColumns) : j.toRow? = .ok j.row := by
  unfold toRow?
  rw [counter_of_lt h.tryPeriod, counter_of_lt h.tryMax, counter_of_lt h.trys]
  refine congrArg Except.ok (funext fun c => ?_)
  cases c <;> rfl

theorem toRow?_eq_ok_iff : j.toRow? = .ok r ↔ j.FitsColumns ∧ r = j.row := by
  constructor
  · intro h
    have hfits : j.FitsColumns := by
      unfold toRow? at h
      by_cases hp : 2 * j.tryPeriod.toNat < UInt32.size
      · by_cases hm : 2 * j.tryMax.toNat < UInt32.size
        · by_cases ht : 2 * j.trys.toNat < UInt32.size
          · exact ⟨hp, hm, ht⟩
          · obtain ⟨t, ht⟩ := counter_of_not_lt .trys ht
            rw [counter_of_lt hp, counter_of_lt hm, ht] at h
            cases h
        · obtain ⟨t, ht⟩ := counter_of_not_lt .tryMax hm
          rw [counter_of_lt hp, ht] at h
          cases h
      · obtain ⟨t, ht⟩ := counter_of_not_lt .tryPeriod hp
        rw [ht] at h
        cases h
    rw [toRow?_of_fits hfits] at h
    exact ⟨hfits, (Except.ok.inj h).symm⟩
  · rintro ⟨h, rfl⟩
    exact toRow?_of_fits h

/-! ## reading -/

theorem asCounter_toNat (column : Column) (n : UInt32) : asCounter column n.toNat = .ok n := by
  unfold asCounter
  rw [if_neg (by omega), Int.toNat_natCast, UInt32.ofNat_toNat]

theorem optional_ofOption {α : Type} {read : Datum → Except StoreError α} (write : α → Datum)
    (hnull : ∀ a, write a ≠ .null) (hread : ∀ a, read (write a) = .ok a) (o : Option α) :
    Sql.optional read (.ofOption write o) = .ok o := by
  cases o with
  | none => rfl
  | some a =>
    show Sql.optional read (write a) = .ok (some a)
    unfold Sql.optional
    split
    · next h => exact absurd h (hnull a)
    · rw [hread]; rfl

/-- What is read of a row whose owner's name is blank. -/
def blankOwner : StoreError := .corrupt DomainError.blankProject.message

/-- The row of a job gives the job back, unless the owner's name is blank. -/
theorem ofRow?_row (j : Job) :
    Job.ofRow? j.row = if Text.isBlank j.project.name then .error blankOwner else .ok j := by
  have hresult : Sql.optional asJson (j.row .result) = .ok j.result :=
    optional_ofOption .json (fun _ => nofun) (fun _ => rfl) j.result
  have herror : Sql.optional asText (j.row .error) = .ok j.error :=
    optional_ofOption .text (fun _ => nofun) (fun _ => rfl) j.error
  have hstatus : Status.parse j.status.text = .ok j.status := by
    unfold Status.parse
    rw [Status.ofText?_text]
  unfold ofRow?
  rw [hresult, herror]
  show (do
    let corrupt (e : DomainError) : StoreError := .corrupt e.message
    let project ← (ProjectId.parse j.project.name).mapError corrupt
    let status ← (Status.parse j.status.text).mapError corrupt
    let tryPeriod ← asCounter .tryPeriod j.tryPeriod.toNat
    let tryMax ← asCounter .tryMax j.tryMax.toNat
    let trys ← asCounter .trys j.trys.toNat
    pure { j with project, status, tryPeriod, tryMax, trys }) = _
  rw [hstatus, asCounter_toNat, asCounter_toNat, asCounter_toNat]
  unfold ProjectId.parse
  split <;> rfl

/-- The job with an owner whose name is not blank. -/
def systemOwned (j : Job) : Job := { j with project := .system }

theorem row_systemOwned (j : Job) {c : Column} (hc : c ≠ .project) :
    j.systemOwned.row c = j.row c := by
  cases c with
  | project => exact absurd rfl hc
  | _ => rfl

theorem ofRow?_systemOwned (j : Job) : Job.ofRow? j.systemOwned.row = .ok j.systemOwned := by
  rw [ofRow?_row]
  exact if_neg (show ¬ Text.isBlank ProjectId.system.name = true by decide)

/-- A row is the row of one job only. -/
theorem row_injective (h : j.row = k.row) : j = k := by
  have hproject : j.project = k.project :=
    congrArg ProjectId.mk (Datum.text.inj (congrFun h .project))
  have hrow : j.systemOwned.row = k.systemOwned.row := by
    funext c
    by_cases hc : c = .project
    · subst hc; rfl
    · rw [row_systemOwned j hc, row_systemOwned k hc, h]
  have hread := ofRow?_systemOwned j
  rw [hrow, ofRow?_systemOwned] at hread
  have hrest : k.systemOwned = j.systemOwned := Except.ok.inj hread
  calc j = { j.systemOwned with project := j.project } := rfl
    _ = { k.systemOwned with project := k.project } := by rw [hrest, hproject]
    _ = k := rfl

end Job

/-! ## rules -/

namespace Sql

theorem breach?_eq (hkind : ∀ c, (r c).hasKind c.kind = true)
    (hpresent : ∀ c ∈ required, (r c).isNull = false) :
    breach? r =
      ((checks.map fun k => (k.1, k.2 r)).find? fun k => k.2 = some false).map
        fun k => Breach.check k.1 := by
  have hk : (Column.all.find? fun c => !(r c).hasKind c.kind) = none :=
    List.find?_eq_none.mpr fun c _ => by simp [hkind c]
  have hp : (required.find? fun c => (r c).isNull) = none :=
    List.find?_eq_none.mpr fun c hc => by simp [hpresent c hc]
  unfold breach?
  rw [hk, hp, List.find?_map, Option.map_map]
  rfl

theorem breach?_eq_none_iff :
    breach? r = none ↔ (∀ c, (r c).hasKind c.kind = true) ∧
      (∀ c ∈ required, (r c).isNull = false) ∧ ∀ k ∈ checks, k.2 r ≠ some false := by
  unfold breach?
  rw [Option.or_eq_none_iff, Option.or_eq_none_iff, Option.map_eq_none_iff, Option.map_eq_none_iff,
    Option.map_eq_none_iff, List.find?_eq_none, List.find?_eq_none, List.find?_eq_none]
  refine and_congr ?_ (and_congr ?_ ?_)
  · constructor
    · intro h c
      have := h c (by cases c <;> decide)
      simpa using this
    · intro h c _
      simp [h c]
  · simp
  · simp

/-- The counters that a column of whole numbers can hold. -/
theorem hasKind_counter {n : UInt32} :
    (Datum.int n.toNat).hasKind .int = true ↔ 2 * n.toNat < UInt32.size := by
  have hsize : UInt32.size = 4294967296 := rfl
  refine decide_eq_true_iff.trans ?_
  omega

end Sql

namespace Job

theorem kind_row (h : j.FitsColumns) (c : Column) : (j.row c).hasKind c.kind = true := by
  cases c with
  | tryPeriod => exact hasKind_counter.mpr h.tryPeriod
  | tryMax => exact hasKind_counter.mpr h.tryMax
  | trys => exact hasKind_counter.mpr h.trys
  | result => unfold row; cases j.result <;> rfl
  | error => unfold row; cases j.error <;> rfl
  | _ => rfl

theorem present_row (j : Job) {c : Column} (hc : c ∈ required) : (j.row c).isNull = false := by
  cases c with
  | result => exact absurd hc (by decide)
  | error => exact absurd hc (by decide)
  | _ => rfl

/-- What the checks of the columns say of the row of a job. -/
theorem checks_row (j : Job) :
    checks.map (fun k => (k.1, k.2 j.row)) =
      [(.status, some true), (.tryPeriod, some true), (.tryMax, some (decide (0 < j.tryMax.toNat))),
        (.trys, some (decide (j.trys ≤ j.tryMax)))] := by
  have hstatus : (Datum.text j.status.text).among
      (.texts ["pending", "running", "finished", "error"]) = some true := by
    cases j.status <;> decide
  have hnonneg (n : UInt32) : (Datum.int 0).atMost (.int n.toNat) = some true :=
    congrArg some (decide_eq_true (by omega))
  have hmax : (Datum.int 1).atMost (.int j.tryMax.toNat) =
      some (decide (0 < j.tryMax.toNat)) := by
    refine congrArg some (decide_eq_decide.mpr ?_)
    omega
  have htrys : (Datum.int j.trys.toNat).atMost (.int j.tryMax.toNat) =
      some (decide (j.trys ≤ j.tryMax)) := by
    refine congrArg some (decide_eq_decide.mpr ?_)
    rw [UInt32.le_iff_toNat_le]
    omega
  show [(Column.status, (Datum.text j.status.text).among
        (.texts ["pending", "running", "finished", "error"])),
      (.tryPeriod, (Datum.int 0).atMost (.int j.tryPeriod.toNat)),
      (.tryMax, (Datum.int 1).atMost (.int j.tryMax.toNat)),
      (.trys, Truth.and ((Datum.int 0).atMost (.int j.trys.toNat))
        ((Datum.int j.trys.toNat).atMost (.int j.tryMax.toNat)))] = _
  rw [hstatus, hnonneg, hnonneg, hmax, htrys, Truth.true_and]

/-- A row that fits its columns breaks no rule but the checks on the counters. -/
theorem breach?_row (h : j.FitsColumns) :
    breach? j.row =
      if 0 < j.tryMax.toNat then if j.trys ≤ j.tryMax then none else some (.check .trys)
      else some (.check .tryMax) := by
  rw [breach?_eq (kind_row h) (fun c => present_row j), checks_row]
  by_cases hm : 0 < j.tryMax.toNat
  · by_cases ht : j.trys ≤ j.tryMax <;> simp [hm, ht]
  · simp [hm]

/-- The jobs that a table can keep. -/
theorem breach?_row_eq_none_iff :
    breach? j.row = none ↔ j.FitsColumns ∧ 0 < j.tryMax.toNat ∧ j.trys ≤ j.tryMax := by
  constructor
  · intro h
    have hkind := (breach?_eq_none_iff.mp h).1
    have hfits : j.FitsColumns := ⟨hasKind_counter.mp (hkind .tryPeriod),
      hasKind_counter.mp (hkind .tryMax), hasKind_counter.mp (hkind .trys)⟩
    rw [breach?_row hfits] at h
    by_cases hm : 0 < j.tryMax.toNat
    · by_cases ht : j.trys ≤ j.tryMax
      · exact ⟨hfits, hm, ht⟩
      · simp [hm, ht] at h
    · simp [hm] at h
  · rintro ⟨hfits, hm, ht⟩
    rw [breach?_row hfits, if_pos hm, if_pos ht]

end Job

/-! ## rows that keep the rules -/

namespace Sql

/-- A value of a kind. -/
def OfKind (d : Datum) : Kind → Prop
  | .uuid => ∃ u, d = .uuid u
  | .text => ∃ s, d = .text s
  | .json => ∃ v, d = .json v
  | .time => ∃ t, d = .time t
  | .int => ∃ n, d = .int n ∧ n ≤ 2147483647

theorem ofKind_of_hasKind {d : Datum} {k : Kind} (h : d.hasKind k = true) (hd : d ≠ .null) :
    OfKind d k := by
  cases k <;> cases d <;> simp_all [Datum.hasKind, OfKind]

theorem exists_option {d : Datum} {α : Type} {write : α → Datum}
    (h : d ≠ .null → ∃ a, d = write a) : ∃ o : Option α, d = .ofOption write o := by
  by_cases hd : d = .null
  · exact ⟨none, hd⟩
  · obtain ⟨a, ha⟩ := h hd
    exact ⟨some a, ha⟩

theorem exists_status {s : String}
    (h : (Datum.text s).among (.texts ["pending", "running", "finished", "error"]) ≠ some false) :
    ∃ st : Status, st.text = s := by
  rw [Datum.among_eq (by simp) rfl (by simp)] at h
  have hs : Datum.text s ∈ Status.all.map fun st => Datum.text st.text :=
    Decidable.byContradiction fun hno => h (congrArg some (decide_eq_false hno))
  obtain ⟨st, -, hst⟩ := List.mem_map.mp hs
  exact ⟨st, Datum.text.inj hst⟩

theorem exists_counter {n : Int} (h₀ : 0 ≤ n) (h : n ≤ 2147483647) :
    ∃ k : UInt32, Datum.int n = .int k.toNat := by
  refine ⟨UInt32.ofNat n.toNat, congrArg Datum.int ?_⟩
  rw [UInt32.toNat_ofNat_of_lt' (by have : UInt32.size = 4294967296 := rfl; omega)]
  omega

end Sql

/-- A row that keeps the rules of the table is the row of a job. -/
theorem Job.exists_row (h : breach? r = none) : ∃ j : Job, r = j.row := by
  obtain ⟨hkind, hpresent, hchecks⟩ := breach?_eq_none_iff.mp h
  have value (c : Column) (hc : c ∈ required) : OfKind (r c) c.kind :=
    ofKind_of_hasKind (hkind c) (of_decide_eq_false (hpresent c hc))
  obtain ⟨id, hid⟩ := value .id (by decide)
  obtain ⟨project, hproject⟩ := value .project (by decide)
  obtain ⟨action, haction⟩ := value .action (by decide)
  obtain ⟨text, htext⟩ := value .status (by decide)
  obtain ⟨params, hparams⟩ := value .params (by decide)
  obtain ⟨runAt, hrunAt⟩ := value .runAt (by decide)
  obtain ⟨period, hperiod, hperiod_le⟩ := value .tryPeriod (by decide)
  obtain ⟨max, hmax, hmax_le⟩ := value .tryMax (by decide)
  obtain ⟨trys, htrys, htrys_le⟩ := value .trys (by decide)
  obtain ⟨created, hcreated⟩ := value .created (by decide)
  obtain ⟨updated, hupdated⟩ := value .updated (by decide)
  obtain ⟨result, hresult⟩ := exists_option (ofKind_of_hasKind (hkind .result))
  obtain ⟨error, herror⟩ := exists_option (ofKind_of_hasKind (hkind .error))
  simp only [checks, List.forall_mem_cons, htext, hperiod, hmax, htrys] at hchecks
  obtain ⟨hs, hp, hm, ht, -⟩ := hchecks
  obtain ⟨status, rfl⟩ := exists_status hs
  obtain ⟨hperiod₀, hmax₀, htrys₀⟩ : 0 ≤ period ∧ 0 ≤ max ∧ 0 ≤ trys := by
    simp only [Datum.atMost, Truth.some_and, ne_eq, Option.some.injEq, Bool.and_eq_false_iff,
      decide_eq_false_iff_not] at hp hm ht
    omega
  obtain ⟨period, hperiod'⟩ := exists_counter hperiod₀ hperiod_le
  obtain ⟨max, hmax'⟩ := exists_counter hmax₀ hmax_le
  obtain ⟨trys, htrys'⟩ := exists_counter htrys₀ htrys_le
  rw [hperiod'] at hperiod
  rw [hmax'] at hmax
  rw [htrys'] at htrys
  refine ⟨⟨id, ⟨project⟩, action, status, params, result, error, runAt, period, max, trys, created,
    updated⟩, funext fun c => ?_⟩
  cases c <;> assumption

end JobEngine
