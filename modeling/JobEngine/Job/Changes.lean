import JobEngine.Job.Basic

/-!
# Partial updates

* `Changes`         per field, leave it or set it; an error or a result may also be cleared;
* `Changes.apply`   the record after the update, or why there is none.

A set of changes that would lift `trys` above `tryMax` is refused as a whole.
-/

namespace JobEngine

/-- A partial update; `none` leaves a field as it is. -/
structure Changes where
  status : Option Status := none
  runAt : Option Instant := none
  trys : Option UInt32 := none
  error : Option (Option String) := none
  params : Option Json := none
  result : Option (Option Json) := none
  updated : Option Instant := none
deriving DecidableEq, Inhabited

namespace Changes

def isEmpty (c : Changes) : Bool :=
  c.status.isNone && c.runAt.isNone && c.trys.isNone && c.error.isNone && c.params.isNone &&
    c.result.isNone && c.updated.isNone

/-- Whether the changes would lift `trys` above what the job allows. -/
def Oversteps (c : Changes) (j : Job) : Prop := ∃ n, c.trys = some n ∧ j.tryMax < n

instance (c : Changes) (j : Job) : Decidable (c.Oversteps j) :=
  match h : c.trys with
  | none => isFalse (fun ⟨_, hn, _⟩ => by simp [h] at hn)
  | some n =>
    if hn : j.tryMax < n then isTrue ⟨n, h, hn⟩
    else isFalse (fun ⟨m, hm, hlt⟩ => by rw [h] at hm; injection hm with hm; exact hn (hm ▸ hlt))

/-- The record with the fields set that the changes name. -/
def overwrite (c : Changes) (j : Job) : Job :=
  { j with
    trys := c.trys.getD j.trys
    status := c.status.getD j.status
    runAt := c.runAt.getD j.runAt
    error := c.error.getD j.error
    params := c.params.getD j.params
    result := c.result.getD j.result
    updated := c.updated.getD j.updated }

/-- The record after the update. -/
def apply (c : Changes) (j : Job) : Except DomainError Job :=
  match c.trys with
  | some n => if j.tryMax < n then .error (.trysAboveMax n j.tryMax) else .ok (c.overwrite j)
  | none => .ok (c.overwrite j)

/-- The record behind each update in turn; one that is refused leaves it as it was. -/
def applyEach (j : Job) : List Changes → List (Job × Option DomainError)
  | [] => []
  | c :: rest =>
    match c.apply j with
    | .ok j' => (j', none) :: applyEach j' rest
    | .error e => (j, some e) :: applyEach j rest

theorem apply_eq (c : Changes) (j : Job) :
    c.apply j =
      if c.Oversteps j then .error (.trysAboveMax (c.trys.getD 0) j.tryMax)
      else .ok (c.overwrite j) := by
  unfold apply
  split
  · next n h =>
    by_cases hn : j.tryMax < n
    · rw [if_pos hn, if_pos ⟨n, h, hn⟩]; simp [h]
    · rw [if_neg hn, if_neg]
      rintro ⟨m, hm, hlt⟩
      rw [h] at hm; injection hm with hm; exact hn (hm ▸ hlt)
  · next h =>
    rw [if_neg]
    rintro ⟨m, hm, _⟩
    simp [h] at hm

theorem apply_eq_ok_iff {c : Changes} {j j' : Job} :
    c.apply j = .ok j' ↔ ¬ c.Oversteps j ∧ c.overwrite j = j' := by
  rw [apply_eq]
  split
  · next h => simp [h]
  · next h => simp [h]

@[simp] theorem overwrite_id (c : Changes) (j : Job) : (c.overwrite j).id = j.id := rfl

@[simp] theorem overwrite_tryMax (c : Changes) (j : Job) : (c.overwrite j).tryMax = j.tryMax := rfl

@[simp] theorem overwrite_action (c : Changes) (j : Job) : (c.overwrite j).action = j.action := rfl

end Changes

end JobEngine
