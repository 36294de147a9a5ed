import JobEngine.Simulation.World
import JobEngine.Worker.Lifecycle

/-!
# Units of work on one store

Any number of units work on one store in memory.  Each goes on when what it asked is answered, in
any order; it may be abandoned at every question, and the clock may be set at any time.  Log lines
make nobody wait.

* `Task`             what a unit does, and its program;
* `Answers`          what the store and the rest of the surroundings may answer;
* `Pool`, `Step`     the store, the units and all that was answered so far, a step at a time;
* `Reachable ρ P₀`   the pools behind steps that keep the rule `ρ`;
* `Reachable.deed`   every answer of the past was given at a pool that was reached.
-/

namespace JobEngine

/-! ## what a unit does -/

inductive Task
  | create (c : Controller) (request : NewJob)
  | run (c : Controller) (tag : String) (id : JobId) (deadline : Nat)
  | clean (tag : String) (id : JobId)
  /-- A worker's listing of what is due. -/
  | poll (limit : UInt64) (order : SortOrder)
  /-- A worker's listing of what was abandoned. -/
  | sweep

/-- How a unit ends. -/
inductive Upshot
  | filed (r : Except JobError Job)
  | ended (r : Except JobError Unit)
  | listed (r : Except JobError (List JobId))

namespace Program

/-- What a program asks first. -/
def question {E : Effects} {α : Type} : Program E α → Option E.Call
  | call c _ => some c
  | _ => none

/-- The program behind the log lines that it begins with. -/
def settled {α : Type} : Program Engine α → Program Engine α
  | call (.log _) k => (k ()).settled
  | p => p

theorem question_settled_ne_log {α : Type} (p : Program Engine α) (l : LogLine) :
    p.settled.question ≠ some (.log l) := by
  induction p with
  | done a => simp [settled, question]
  | crash => simp [settled, question]
  | call c k ih =>
    cases c with
    | log l' => exact ih ()
    | _ => simp [settled, question]

end Program

def Task.program : Task → Program Engine Upshot
  | create c request => (c.create request).run.bind fun r => .done (.filed r)
  | run c tag id deadline => ((c.lifecycle tag).run id deadline).bind fun r => .done (.ended r)
  | clean tag id => (Run.cleanJob (.forJob tag id) id).run.bind fun r => .done (.ended r)
  | poll limit order => (Run.due limit order).run.bind fun r => .done (.listed r)
  | sweep => Run.abandoned.run.bind fun r => .done (.listed r)

structure WorkUnit where
  task : Task
  /-- Nothing, once the unit is abandoned. -/
  rest : Option (Program Engine Upshot)

namespace WorkUnit

def start (t : Task) : WorkUnit := ⟨t, some t.program.settled⟩

/-- What the unit waits for; nothing behind its end. -/
def question (w : WorkUnit) : Option EngineCall := w.rest.bind Program.question

/-- The unit has not come to its end. -/
def Live (w : WorkUnit) : Prop := w.question.isSome

end WorkUnit

/-! ## what it hears -/

/-- A question with its answer. -/
abbrev Heard := (c : EngineCall) × c.Answer

/-- What a question may be answered.  The store answers in the state it is in, or fails; a row that
is held gives no answer until it is free or the wait for it fails. -/
inductive Answers (m : Memory) (now : Instant) : (c : EngineCall) → c.Answer → Memory → Prop
  | performed {c : StoreCall} {a : c.Answer} {m' : Memory} :
    m.perform c = (some a, m') → Answers m now (.store c) a m'
  | refused (c : StoreCall) (e : StoreError) :
    Answers m now (.store c) (c.refuse e) (World.faulted m c)
  | clock : Answers m now .clock now m
  | publish (e : JobEvent) (r : Except NotifyError Unit) : Answers m now (.publish e) r m
  | invoke (i : Invocation) (r : Option (Except ActionError Json)) : Answers m now (.invoke i) r m
  | log (l : LogLine) : Answers m now (.log l) () m
  | freshId (id : JobId) : Answers m now .freshId id m
  | pause (millis : Nat) : Answers m now (.pause millis) () m

/-- An answer that a unit got. -/
structure Deed where
  unit : Nat
  task : Task
  heard : Heard
  /-- What the unit asks next. -/
  asks : Option EngineCall
  time : Instant
  /-- The store before the answer. -/
  before : Memory
  after : Memory

namespace Deed

/-- The record of a job that a commit files. -/
def files (d : Deed) (id : JobId) : Option Job :=
  match d.heard with
  | ⟨.store (.commit s), .ok ()⟩ => (d.before.session s).staged.get? id
  | _ => none

/-- The deed starts a run of an action. -/
def Invokes (d : Deed) (i : Invocation) : Prop := d.asks = some (.invoke i)

end Deed

/-! ## all of them together -/

structure Pool where
  memory : Memory
  now : Instant
  units : List WorkUnit := []
  past : List Deed := []

namespace Pool

/-- The session that a unit has open, behind one more answer. -/
def sessionBehind : Option SessionId → Heard → Option SessionId
  | _, ⟨.store .begin, .ok s⟩ => some s
  | _, ⟨.store (.commit _), _⟩ => none
  | _, ⟨.store (.rollback _), _⟩ => none
  | _, ⟨.store (.discard _), _⟩ => none
  | s, _ => s

/-- All that a unit has heard. -/
def told (P : Pool) (u : Nat) : List Heard := (P.past.filter (·.unit = u)).map Deed.heard

def session (P : Pool) (u : Nat) : Option SessionId := (P.told u).foldl sessionBehind none

def start (P : Pool) (t : Task) : Pool := { P with units := P.units ++ [.start t] }

/-- A unit is abandoned; its session is discarded. -/
def drop (P : Pool) (u : Nat) (w : WorkUnit) : Pool :=
  { P with
    memory := match P.session u with
      | some s => P.memory.close s
      | none => P.memory
    units := P.units.set u { w with rest := none } }

def deed (P : Pool) (u : Nat) (t : Task) (h : Heard) (p : Program Engine Upshot) (m : Memory) :
    Deed where
  unit := u
  task := t
  heard := h
  asks := p.settled.question
  time := P.now
  before := P.memory
  after := m

def goOn (P : Pool) (u : Nat) (w : WorkUnit) (h : Heard) (p : Program Engine Upshot) (m : Memory) :
    Pool :=
  { P with
    memory := m
    units := P.units.set u { w with rest := some p.settled }
    past := P.past ++ [P.deed u w.task h p m] }

/-- What a unit waits for is answered. -/
inductive Happens (P : Pool) : Deed → Pool → Prop
  | mk {u : Nat} {w : WorkUnit} {c : EngineCall} {k : c.Answer → Program Engine Upshot}
    {a : c.Answer} {m : Memory} :
    P.units[u]? = some w → w.rest = some (.call c k) → Answers P.memory P.now c a m →
    Happens P (P.deed u w.task ⟨c, a⟩ (k a) m) (P.goOn u w ⟨c, a⟩ (k a) m)

inductive Step (P : Pool) : Pool → Prop
  | start (t : Task) : Step P (P.start t)
  | answer {d : Deed} {P' : Pool} : P.Happens d P' → Step P P'
  | drop {u : Nat} {w : WorkUnit} {p : Program Engine Upshot} :
    P.units[u]? = some w → w.rest = some p → Step P (P.drop u w)
  | clock (t : Instant) : Step P { P with now := t }

/-- The pools behind steps that keep a rule. -/
inductive Reachable (ρ : Pool → Pool → Prop) (P₀ : Pool) : Pool → Prop
  | refl : Reachable ρ P₀ P₀
  | step {P P' : Pool} : Reachable ρ P₀ P → P.Step P' → ρ P P' → Reachable ρ P₀ P'

/-- A store and a clock before any unit. -/
abbrev fresh (m : Memory) (now : Instant) : Pool := { memory := m, now }

def anyhow : Pool → Pool → Prop := fun _ _ => True

/-- The clock never goes back. -/
def Steady (P P' : Pool) : Prop := P.now ≤ P'.now

/-! ## steps and the past -/

/-- An element of a list with one more at its end is the new one or stands in the list. -/
theorem split_concat {α : Type} {xs as bs : List α} {x a : α} (h : xs ++ [x] = as ++ a :: bs) :
    (bs = [] ∧ as = xs ∧ a = x) ∨ ∃ bs', bs = bs' ++ [x] ∧ xs = as ++ a :: bs' := by
  rcases List.eq_nil_or_concat bs with rfl | ⟨bs, b, rfl⟩
  · obtain ⟨h₁, h₂⟩ := List.append_inj' h rfl
    exact Or.inl ⟨rfl, h₁.symm, (List.singleton_inj.mp h₂).symm⟩
  · have h : xs ++ [x] = (as ++ a :: bs) ++ [b] := by simpa using h
    obtain ⟨h₁, h₂⟩ := List.append_inj' h rfl
    exact Or.inr ⟨bs, by rw [List.singleton_inj.mp h₂, List.concat_eq_append], h₁⟩

variable {P P' P₀ : Pool} {d : Deed} {ρ ρ' : Pool → Pool → Prop}

theorem told_goOn (u v : Nat) (w : WorkUnit) (h : Heard) (p : Program Engine Upshot) (m : Memory) :
    (P.goOn u w h p m).told v = if u = v then P.told v ++ [h] else P.told v := by
  unfold told goOn
  rw [List.filter_append, List.map_append]
  split
  · next e => simp [deed, e]
  · next e => simp [deed, e]

theorem unit_ne_of_told {u : Nat} (h : P.told u = []) (hd : d ∈ P.past) : d.unit ≠ u := by
  intro hu
  have hmem : d.heard ∈ P.told u :=
    List.mem_map_of_mem (List.mem_filter.mpr ⟨hd, decide_eq_true hu⟩)
  rw [h] at hmem
  exact List.not_mem_nil hmem

theorem Happens.past_eq (h : P.Happens d P') : P'.past = P.past ++ [d] := by
  cases h with
  | mk => rfl

theorem Happens.memory_eq (h : P.Happens d P') : P'.memory = d.after ∧ P.memory = d.before := by
  cases h with
  | mk => exact ⟨rfl, rfl⟩

theorem Happens.now_eq (h : P.Happens d P') : P'.now = P.now ∧ d.time = P.now := by
  cases h with
  | mk => exact ⟨rfl, rfl⟩

/-- A step that is no deed leaves the past and the rows alone. -/
theorem Step.cases_past (h : P.Step P') :
    (∃ d, P.Happens d P') ∨ P'.past = P.past ∧ P'.memory.rows = P.memory.rows := by
  cases h with
  | start t => exact Or.inr ⟨rfl, rfl⟩
  | answer h => exact Or.inl ⟨_, h⟩
  | @drop u w p hw hp =>
    refine Or.inr ⟨rfl, ?_⟩
    show (match P.session u with | some s => P.memory.close s | none => P.memory).rows = _
    cases P.session u <;> rfl
  | clock t => exact Or.inr ⟨rfl, rfl⟩

theorem Step.units_stay (h : P.Step P') {w : WorkUnit} (hw : w ∈ P.units) :
    ∃ w' ∈ P'.units, w'.task = w.task := by
  have hset {u : Nat} {v : WorkUnit} {rest : Option (Program Engine Upshot)}
      (hv : P.units[u]? = some v) : ∃ w' ∈ P.units.set u { v with rest }, w'.task = w.task := by
    obtain ⟨i, hi⟩ := List.mem_iff_getElem?.mp hw
    by_cases e : u = i
    · subst e
      obtain rfl := Option.some.inj (hv.symm.trans hi)
      exact ⟨_, List.mem_set (List.getElem?_eq_some_iff.mp hv).1 _, rfl⟩
    · exact ⟨w, List.mem_iff_getElem?.mpr ⟨i, (List.getElem?_set_ne e).trans hi⟩, rfl⟩
  cases h with
  | start t => exact ⟨w, List.mem_append_left _ hw, rfl⟩
  | answer h =>
    cases h with
    | mk hv _ _ => exact hset hv
  | drop hv _ => exact hset hv
  | clock t => exact ⟨w, hw, rfl⟩

theorem Reachable.mono (h : Reachable ρ P₀ P) (hρ : ∀ P P', ρ P P' → ρ' P P') :
    Reachable ρ' P₀ P := by
  induction h with
  | refl => exact .refl
  | step _ hs hr ih => exact .step ih hs (hρ _ _ hr)

theorem Reachable.trans {Q : Pool} (h : Reachable ρ P₀ P) (h' : Reachable ρ P Q) :
    Reachable ρ P₀ Q := by
  induction h' with
  | refl => exact h
  | step _ hs hr ih => exact .step ih hs hr

/-- What holds at first and is kept by every step holds of all that is reached. -/
theorem Reachable.invariant {I : Pool → Prop} (h : Reachable ρ P₀ P) (h₀ : I P₀)
    (hstep : ∀ P P', Reachable ρ P₀ P → I P → P.Step P' → ρ P P' → I P') : I P := by
  induction h with
  | refl => exact h₀
  | step h hs hr ih => exact hstep _ _ h ih hs hr

/-- Each deed of the past happened at a pool that was reached, with the past before it. -/
theorem Reachable.deed (h : Reachable ρ P₀ P) (h₀ : P₀.past = []) {xs ys : List Deed}
    (hsplit : P.past = xs ++ d :: ys) :
    ∃ Q Q', Reachable ρ P₀ Q ∧ Q.past = xs ∧ Q.Happens d Q' ∧ ρ Q Q' ∧ Reachable ρ Q' P := by
  induction h generalizing ys with
  | refl => rw [h₀] at hsplit; simp at hsplit
  | @step P P' h hs hr ih =>
    rcases hs.cases_past with ⟨d', hd⟩ | ⟨hp, _⟩
    · rw [hd.past_eq] at hsplit
      rcases split_concat hsplit with ⟨_, rfl, rfl⟩ | ⟨ys, _, hpast⟩
      · exact ⟨P, P', h, rfl, hd, hr, .refl⟩
      · obtain ⟨Q, Q', hQ, hxs, hd, hr', hP⟩ := ih hpast
        exact ⟨Q, Q', hQ, hxs, hd, hr', .step hP hs hr⟩
    · rw [hp] at hsplit
      obtain ⟨Q, Q', hQ, hxs, hd, hr', hP⟩ := ih hsplit
      exact ⟨Q, Q', hQ, hxs, hd, hr', .step hP hs hr⟩

end Pool

end JobEngine
