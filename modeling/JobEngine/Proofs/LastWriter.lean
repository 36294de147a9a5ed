import JobEngine.Proofs.Store.Origin
import Mathlib.Data.List.Induction

/-!
# The last writer of a field

Changes are made one set after another, and some sets are refused.  What is left in a field is what
the last set that was not refused and names the field has put there.

* `Changes.assign`    an update made in the record itself, field by field;
* `run_assign`        a refusal comes before the first assignment;
* `JobField`          the fields that changes may name, with `JobField.of` and `JobField.set?`;
* `Changes.settled`   the record behind a row of updates;
* `Changes.overlay`   two sets of changes as one;
* `last_writer_wins`  the answers of a row, the fields behind it, and two sets made at once.
-/

namespace JobEngine

variable {j j' : Job} {c d : Changes} {cs : List Changes}

/-! ## in place -/

namespace Changes

/-- Assign a field if there is a value for it. -/
def put (x : Option α) (assign : Job → α → Job) : EStateM DomainError Job Unit :=
  match x with
  | none => pure ()
  | some a => modify (assign · a)

/-- The count of attempts is looked at before it is assigned. -/
def putTrys (x : Option UInt32) : EStateM DomainError Job Unit := do
  match x with
  | none => pure ()
  | some n =>
    let j ← get
    if j.tryMax < n then throw (.trysAboveMax n j.tryMax)
    set { j with trys := n }

/-- The update made in the record itself; what is assigned before a refusal stays. -/
def assign (c : Changes) : EStateM DomainError Job Unit := do
  putTrys c.trys
  put c.status fun j a => { j with status := a }
  put c.runAt fun j a => { j with runAt := a }
  put c.error fun j a => { j with error := a }
  put c.params fun j a => { j with params := a }
  put c.result fun j a => { j with result := a }
  put c.updated fun j a => { j with updated := a }

theorem run_putTrys (c : Changes) (j : Job) :
    (putTrys c.trys).run j =
      if c.Oversteps j then .error (.trysAboveMax (c.trys.getD 0) j.tryMax) j
      else .ok () { j with trys := c.trys.getD j.trys } := by
  cases hc : c.trys with
  | none =>
    have ho : ¬ c.Oversteps j := by
      rintro ⟨n, hn, -⟩
      simp [hc] at hn
    rw [if_neg ho]
    rfl
  | some n =>
    by_cases hn : j.tryMax < n
    · rw [if_pos ⟨n, hc, hn⟩]
      simp [putTrys, EStateM.run_bind, hn]
    · have ho : ¬ c.Oversteps j := by
        rintro ⟨k, hk, hlt⟩
        exact hn (Option.some.inj (hc.symm.trans hk) ▸ hlt)
      rw [if_neg ho]
      simp [putTrys, EStateM.run_bind, hn]

/-- A refusal comes before the first assignment; otherwise all fields are assigned. -/
theorem run_assign (c : Changes) (j : Job) :
    c.assign.run j =
      if c.Oversteps j then .error (.trysAboveMax (c.trys.getD 0) j.tryMax) j
      else .ok () (c.overwrite j) := by
  unfold assign
  rw [EStateM.run_bind, run_putTrys]
  by_cases ho : c.Oversteps j
  · rw [if_pos ho, if_pos ho]
  · rw [if_neg ho, if_neg ho]
    -- each assignment is made or left out, and all of them commute with the update at once
    obtain ⟨status, runAt, trys, error, params, result, updated⟩ := c
    cases status <;> cases runAt <;> cases error <;> cases params <;> cases result <;>
      cases updated <;> rfl

/-- The record behind an update in place, and the answer. -/
def made (c : Changes) (j : Job) : Job × Option DomainError :=
  match c.assign.run j with
  | .ok _ j' => (j', none)
  | .error e j' => (j', some e)

theorem made_refused (ho : c.Oversteps j) :
    c.made j = (j, some (.trysAboveMax (c.trys.getD 0) j.tryMax)) := by
  unfold made
  rw [run_assign, if_pos ho]

theorem made_accepted (ho : ¬ c.Oversteps j) : c.made j = (c.overwrite j, none) := by
  unfold made
  rw [run_assign, if_neg ho]

theorem made_answer {e : DomainError} :
    (c.made j).2 = some e ↔ ∃ n, c.trys = some n ∧ j.tryMax < n ∧ e = .trysAboveMax n j.tryMax := by
  by_cases ho : c.Oversteps j
  · obtain ⟨n, hn, hlt⟩ := ho
    rw [made_refused ⟨n, hn, hlt⟩, hn]
    constructor
    · rintro ⟨⟩
      exact ⟨n, rfl, hlt, rfl⟩
    · rintro ⟨k, hk, -, rfl⟩
      rw [Option.some.inj hk, Option.getD_some]
  · rw [made_accepted ho]
    exact ⟨nofun, fun ⟨n, hn, hlt, _⟩ => absurd ⟨n, hn, hlt⟩ ho⟩

theorem applyEach_cons (j : Job) (c : Changes) (cs : List Changes) :
    applyEach j (c :: cs) = c.made j :: applyEach (c.made j).1 cs := by
  rw [applyEach, apply_eq]
  by_cases ho : c.Oversteps j
  · rw [if_pos ho, made_refused ho]
  · rw [if_neg ho, made_accepted ho]

/-! ## a row of updates -/

/-- The record behind a row of updates. -/
def settled (j : Job) (cs : List Changes) : Job := cs.foldl (fun j c => (c.made j).1) j

theorem settled_cons (j : Job) (c : Changes) (cs : List Changes) :
    settled j (c :: cs) = settled (c.made j).1 cs := rfl

theorem settled_concat (j : Job) (cs : List Changes) (c : Changes) :
    settled j (cs ++ [c]) = (c.made (settled j cs)).1 := by
  unfold settled
  rw [List.foldl_append, List.foldl_cons, List.foldl_nil]

theorem applyEach_append (j : Job) (cs ds : List Changes) :
    applyEach j (cs ++ ds) = applyEach j cs ++ applyEach (settled j cs) ds := by
  induction cs generalizing j with
  | nil => rfl
  | cons c cs ih => rw [List.cons_append, applyEach_cons, ih, applyEach_cons]; rfl

theorem length_applyEach (j : Job) (cs : List Changes) : (applyEach j cs).length = cs.length := by
  induction cs generalizing j with
  | nil => rfl
  | cons c cs ih => rw [applyEach_cons, List.length_cons, List.length_cons, ih]

/-- The sets of a row that are not refused. -/
def accepted (j : Job) (cs : List Changes) : List Changes :=
  cs.filter fun c => decide (¬ c.Oversteps j)

theorem sameOrigin_made (c : Changes) (j : Job) : j.SameOrigin (c.made j).1 := by
  by_cases ho : c.Oversteps j
  · rw [made_refused ho]
    exact .refl j
  · rw [made_accepted ho]
    exact sameOrigin_overwrite c j

theorem sameOrigin_settled (j : Job) (cs : List Changes) : j.SameOrigin (settled j cs) := by
  induction cs generalizing j with
  | nil => exact .refl j
  | cons c cs ih => exact (sameOrigin_made c j).trans (ih _)

/-- What is refused hangs on nothing that changes can name. -/
theorem oversteps_congr (h : j.SameOrigin j') : c.Oversteps j' ↔ c.Oversteps j := by
  unfold Oversteps
  rw [h.tryMax]

theorem accepted_congr (h : j.SameOrigin j') (cs : List Changes) :
    accepted j' cs = accepted j cs := by
  unfold accepted
  simp only [oversteps_congr h]

/-- Refused sets might as well not be there. -/
theorem settled_eq_foldl (j : Job) (cs : List Changes) :
    settled j cs = (accepted j cs).foldl (fun j c => c.overwrite j) j := by
  induction cs generalizing j with
  | nil => rfl
  | cons c cs ih =>
    rw [settled_cons, ih, accepted_congr (sameOrigin_made c j)]
    by_cases ho : c.Oversteps j
    · rw [made_refused ho, accepted, accepted, List.filter_cons_of_neg (by simpa using ho)]
    · rw [made_accepted ho, accepted, accepted, List.filter_cons_of_pos (by simpa using ho),
        List.foldl_cons]

end Changes

/-! ## fields -/

/-- A field that changes may name. -/
inductive JobField
  | status
  | runAt
  | trys
  | error
  | params
  | result
  | updated
deriving DecidableEq, Repr

namespace JobField

/-- What a field holds. -/
abbrev Value : JobField → Type
  | status => Status
  | runAt => Instant
  | trys => UInt32
  | error => Option String
  | params => Json
  | result => Option Json
  | updated => Instant

def of : (f : JobField) → Job → f.Value
  | status, j => j.status
  | runAt, j => j.runAt
  | trys, j => j.trys
  | error, j => j.error
  | params, j => j.params
  | result, j => j.result
  | updated, j => j.updated

/-- The value that changes have for a field; a cleared error or result is one too. -/
def set? : (f : JobField) → Changes → Option f.Value
  | status, c => c.status
  | runAt, c => c.runAt
  | trys, c => c.trys
  | error, c => c.error
  | params, c => c.params
  | result, c => c.result
  | updated, c => c.updated

theorem of_overwrite (f : JobField) (c : Changes) (j : Job) :
    f.of (c.overwrite j) = (f.set? c).getD (f.of j) := by
  cases f <;> rfl

/-- Of sets that are made one after another the last that names a field has its way. -/
theorem of_foldl (f : JobField) (cs : List Changes) (j : Job) :
    f.of (cs.foldl (fun j c => c.overwrite j) j) =
      (cs.filterMap f.set?).getLast?.getD (f.of j) := by
  induction cs using List.reverseRecOn with
  | nil => rfl
  | append_singleton cs c ih =>
    rw [List.foldl_append, List.foldl_cons, List.foldl_nil, of_overwrite, ih, List.filterMap_append]
    cases hc : f.set? c with
    | none => simp [hc]
    | some a => simp [hc]

end JobField

/-- The seven fields and the origin are all there is to a record. -/
theorem Job.eq_of_fields (h : j.SameOrigin j') (hf : ∀ f : JobField, f.of j' = f.of j) :
    j' = j := by
  obtain ⟨hid, hproject, haction, hperiod, hmax, hcreated⟩ := h
  have hstatus := hf .status
  have hrun := hf .runAt
  have htrys := hf .trys
  have herror := hf .error
  have hparams := hf .params
  have hresult := hf .result
  have hupdated := hf .updated
  cases j
  cases j'
  simp only [JobField.of] at *
  congr

/-! ## two sets as one -/

namespace Changes

/-- Changes made over others: a field goes to the later set if that names it. -/
def overlay (d c : Changes) : Changes where
  status := d.status.or c.status
  runAt := d.runAt.or c.runAt
  trys := d.trys.or c.trys
  error := d.error.or c.error
  params := d.params.or c.params
  result := d.result.or c.result
  updated := d.updated.or c.updated

theorem set?_overlay (f : JobField) (d c : Changes) :
    f.set? (d.overlay c) = (f.set? d).or (f.set? c) := by
  cases f <;> rfl

theorem overwrite_overlay (d c : Changes) (j : Job) :
    (d.overlay c).overwrite j = d.overwrite (c.overwrite j) := by
  have horigin := (sameOrigin_overwrite c j).trans (sameOrigin_overwrite d _)
  refine Job.eq_of_fields (horigin.symm.trans (sameOrigin_overwrite _ j)) fun f => ?_
  rw [JobField.of_overwrite, JobField.of_overwrite, JobField.of_overwrite, set?_overlay]
  cases f.set? d <;> rfl

theorem not_oversteps_overlay (hc : ¬ c.Oversteps j) (hd : ¬ d.Oversteps j) :
    ¬ (d.overlay c).Oversteps j := by
  rintro ⟨n, hn, hlt⟩
  rcases Option.or_eq_some_iff.mp hn with h | ⟨-, h⟩
  · exact hd ⟨n, h, hlt⟩
  · exact hc ⟨n, h, hlt⟩

/-- Two sets that are accepted are as good as one. -/
theorem apply_overlay (hc : ¬ c.Oversteps j) (hd : ¬ d.Oversteps j) :
    (d.overlay c).apply j = .ok (settled j [c, d]) := by
  have hd' : ¬ d.Oversteps (c.overwrite j) :=
    mt (oversteps_congr (sameOrigin_overwrite c j)).mp hd
  rw [apply_eq_ok_iff]
  refine ⟨not_oversteps_overlay hc hd, ?_⟩
  rw [overwrite_overlay, settled_cons, made_accepted hc, settled_cons, made_accepted hd']
  rfl

/-- **The last writer wins, field by field.**  Changes are made to a job in turn.  A set is refused
exactly if it names a count of attempts above what the job allows, and then it leaves the record as
it was.  Behind the row each of the seven fields has the value of the last set that was not refused
and names it, or its first value if there is none, and the other fields are what they were.  So two
sets that are not refused do what their union does, in which each field goes to the later one. -/
theorem last_writer_wins (j : Job) (cs : List Changes) :
    (∀ before c after, cs = before ++ c :: after → ∃ answer,
      (applyEach j cs)[before.length]? = some (settled j (before ++ [c]), answer) ∧
        (∀ e, answer = some e ↔
          ∃ n, c.trys = some n ∧ j.tryMax < n ∧ e = .trysAboveMax n j.tryMax) ∧
        (answer.isSome → settled j (before ++ [c]) = settled j before)) ∧
      (∀ f : JobField,
        f.of (settled j cs) = ((accepted j cs).filterMap f.set?).getLast?.getD (f.of j)) ∧
      j.SameOrigin (settled j cs) ∧
      ∀ c d : Changes, ¬ c.Oversteps j → ¬ d.Oversteps j →
        (d.overlay c).apply j = .ok (settled j [c, d]) ∧
          ∀ f : JobField, f.set? (d.overlay c) = (f.set? d).or (f.set? c) := by
  refine ⟨?row, fun f => ?fields, sameOrigin_settled j cs,
    fun c d hc hd => ⟨apply_overlay hc hd, fun f => set?_overlay f d c⟩⟩
  case row =>
    rintro before c after rfl
    have horigin := sameOrigin_settled j before
    refine ⟨(c.made (settled j before)).2, ?_, fun e => ?_, fun hanswer => ?_⟩
    · rw [applyEach_append, List.getElem?_append_right (Nat.le_of_eq (length_applyEach j before)),
        length_applyEach, Nat.sub_self, applyEach_cons, settled_concat]
      rfl
    · rw [made_answer, horigin.tryMax]
    · by_cases ho : c.Oversteps (settled j before)
      · rw [settled_concat, made_refused ho]
      · rw [made_accepted ho] at hanswer
        cases hanswer
  case fields => rw [settled_eq_foldl, JobField.of_foldl]

/-- Between two sets that are accepted one is refused, which would have finished the job. -/
theorem cleared_behind_a_refusal :
    let first : Changes := { status := some .running, trys := some 1, error := some (some "busy") }
    let refused : Changes := { status := some .finished, trys := some 4 }
    let last : Changes := { error := some none, result := some (some .null) }
    let j := settled Memory.sample [first, refused, last]
    (applyEach Memory.sample [first, refused, last])[1]? =
        some (settled Memory.sample [first], some (.trysAboveMax 4 3)) ∧
      (j.status = .running ∧ j.trys = 1 ∧ j.error = none ∧ j.result = some .null) ∧
      ¬ first.Oversteps Memory.sample ∧ ¬ last.Oversteps Memory.sample ∧
      (last.overlay first).apply Memory.sample = .ok (settled Memory.sample [first, last]) := by
  intro first refused last j
  have hfirst : ¬ first.Oversteps Memory.sample := by decide
  have hlast : ¬ last.Oversteps Memory.sample := by decide
  obtain ⟨hrow, hfield, -, hover⟩ := last_writer_wins Memory.sample [first, refused, last]
  obtain ⟨answer, hanswer, hrefused, hsame⟩ := hrow [first] refused [last] rfl
  obtain rfl : answer = some (.trysAboveMax 4 3) := (hrefused _).mpr ⟨4, rfl, by decide, rfl⟩
  refine ⟨?_, ⟨hfield .status, hfield .trys, hfield .error, hfield .result⟩, hfirst, hlast,
    (hover first last hfirst hlast).1⟩
  rw [← hsame rfl]
  exact hanswer

end Changes

end JobEngine
