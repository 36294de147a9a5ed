import JobEngine.Proofs.Pool.Sound

/-!
# Schedules

A run of a pool is told by its events: which unit starts, goes on or is abandoned, what the clock
is set to, and what the surroundings decide when they answer.  From then on everything is settled.

* `Luck`, `Event`      what a run is told by;
* `Luck.reply`         the answer behind a decision;
* `Pool.next`          the pool behind an event, and the lines that are logged;
* `Pool.Runs`          a run by a schedule;
* `reachable_iff_runs`   every pool that is reached is reached by a schedule;
* `Runs.unique`        and a schedule leads to one pool.
-/

namespace JobEngine

/-- The log lines that a program begins with. -/
def Program.lines {α : Type} : Program Engine α → List LogLine
  | call (.log l) k => l :: (k ()).lines
  | _ => []

namespace Pool

/-- What the surroundings decide when they answer. -/
inductive Luck
  /-- All works. -/
  | plain
  /-- The store fails. -/
  | fault (e : StoreError)
  /-- What becomes of an event that is published. -/
  | heard (r : Except NotifyError Unit)
  /-- How the run of an action ends. -/
  | acted (r : Option (Except ActionError Json))
  /-- The identifier of a new job. -/
  | named (id : JobId)

/-- The answer, with the store behind it; nothing if it is another question that is decided. -/
def Luck.reply (m : Memory) (now : Instant) : Luck → (c : EngineCall) → Option (c.Answer × Memory)
  | plain, .store c => (m.perform c).1.map fun a => (a, (m.perform c).2)
  | fault e, .store c => some (c.refuse e, World.faulted m c)
  | plain, .clock => some (now, m)
  | heard r, .publish _ => some (r, m)
  | acted r, .invoke _ => some (r, m)
  | plain, .log _ => some ((), m)
  | named id, .freshId => some (id, m)
  | plain, .pause _ => some ((), m)
  | _, _ => none

theorem answers_iff_reply {m m' : Memory} {now : Instant} {c : EngineCall} {a : c.Answer} :
    Answers m now c a m' ↔ ∃ luck : Luck, luck.reply m now c = some (a, m') := by
  constructor
  · intro h
    cases h with
    | @performed c a _ h =>
      refine ⟨.plain, ?_⟩
      show (m.perform c).1.map (fun a => (a, (m.perform c).2)) = _
      rw [h]
      rfl
    | refused c e => exact ⟨.fault e, rfl⟩
    | clock => exact ⟨.plain, rfl⟩
    | publish e r => exact ⟨.heard r, rfl⟩
    | invoke i r => exact ⟨.acted r, rfl⟩
    | log l => exact ⟨.plain, rfl⟩
    | freshId id => exact ⟨.named id, rfl⟩
    | pause n => exact ⟨.plain, rfl⟩
  · rintro ⟨luck, h⟩
    cases luck with
    | plain =>
      cases c with
      | store c =>
        obtain ⟨a', ha, e⟩ := Option.map_eq_some_iff.mp h
        obtain ⟨rfl, rfl⟩ := Prod.mk.inj e
        exact .performed (Prod.ext ha rfl)
      | clock => obtain ⟨rfl, rfl⟩ := Prod.mk.inj (Option.some.inj h); exact .clock
      | log l => obtain ⟨rfl, rfl⟩ := Prod.mk.inj (Option.some.inj h); exact .log l
      | pause n => obtain ⟨rfl, rfl⟩ := Prod.mk.inj (Option.some.inj h); exact .pause n
      | _ => simp [Luck.reply] at h
    | fault e =>
      cases c with
      | store c => obtain ⟨rfl, rfl⟩ := Prod.mk.inj (Option.some.inj h); exact .refused c e
      | _ => simp [Luck.reply] at h
    | heard r =>
      cases c with
      | publish e => obtain ⟨rfl, rfl⟩ := Prod.mk.inj (Option.some.inj h); exact .publish e r
      | _ => simp [Luck.reply] at h
    | acted r =>
      cases c with
      | invoke i => obtain ⟨rfl, rfl⟩ := Prod.mk.inj (Option.some.inj h); exact .invoke i r
      | _ => simp [Luck.reply] at h
    | named id =>
      cases c with
      | freshId => obtain ⟨rfl, rfl⟩ := Prod.mk.inj (Option.some.inj h); exact .freshId id
      | _ => simp [Luck.reply] at h

inductive Event
  | start (t : Task)
  /-- A unit gets its answer. -/
  | go (u : Nat) (luck : Luck)
  | drop (u : Nat)
  | clock (t : Instant)

/-- The pool behind an event, and what is logged; nothing if there is nothing to go on with. -/
def next (P : Pool) : Event → Option (Pool × List LogLine)
  | .start t => some (P.start t, t.program.lines)
  | .go u luck =>
    match P.units[u]? with
    | some w =>
      match w.rest with
      | some (.call c k) =>
        (luck.reply P.memory P.now c).map fun x =>
          (P.goOn u w ⟨c, x.1⟩ (k x.1) x.2, (k x.1).lines)
      | _ => none
    | none => none
  | .drop u =>
    match P.units[u]? with
    | some w => if w.rest.isSome then some (P.drop u w, []) else none
    | none => none
  | .clock t => some ({ P with now := t }, [])

/-- The pool behind a schedule whose steps keep a rule, with all lines that are logged. -/
inductive Runs (ρ : Pool → Pool → Prop) : Pool → List Event → List LogLine → Pool → Prop
  | nil (P : Pool) : Runs ρ P [] [] P
  | cons {P P' Q : Pool} {e : Event} {es : List Event} {ls more : List LogLine} :
    P.next e = some (P', ls) → ρ P P' → Runs ρ P' es more Q → Runs ρ P (e :: es) (ls ++ more) Q

variable {P P' Q Q' : Pool} {ρ ρ' : Pool → Pool → Prop} {e : Event} {es : List Event}
  {ls ls' : List LogLine}

theorem next_go {u : Nat} {luck : Luck} :
    P.next (.go u luck) = some (P', ls) ↔
      ∃ (w : WorkUnit) (c : EngineCall) (k : c.Answer → Program Engine Upshot) (a : c.Answer)
        (m : Memory), P.units[u]? = some w ∧ w.rest = some (.call c k) ∧
        luck.reply P.memory P.now c = some (a, m) ∧ P' = P.goOn u w ⟨c, a⟩ (k a) m ∧
        ls = (k a).lines := by
  constructor
  · intro h
    simp only [next] at h
    split at h
    · next w hw =>
      split at h
      · next c k hk =>
        obtain ⟨⟨a, m⟩, ha, e⟩ := Option.map_eq_some_iff.mp h
        obtain ⟨rfl, rfl⟩ := Prod.mk.inj e
        exact ⟨w, c, k, a, m, hw, hk, ha, rfl, rfl⟩
      · simp at h
    · simp at h
  · rintro ⟨w, c, k, a, m, hw, hk, ha, rfl, rfl⟩
    simp [next, hw, hk, ha]

theorem next_drop {u : Nat} :
    P.next (.drop u) = some (P', ls) ↔
      ∃ w p, P.units[u]? = some w ∧ w.rest = some p ∧ P' = P.drop u w ∧ ls = [] := by
  constructor
  · intro h
    simp only [next] at h
    split at h
    · next w hw =>
      split at h
      · next hrest =>
        obtain ⟨rfl, rfl⟩ := Prod.mk.inj (Option.some.inj h)
        obtain ⟨p, hp⟩ := Option.isSome_iff_exists.mp hrest
        exact ⟨w, p, hw, hp, rfl, rfl⟩
      · simp at h
    · simp at h
  · rintro ⟨w, p, hw, hp, rfl, rfl⟩
    simp [next, hw, hp]

theorem step_iff_next : P.Step P' ↔ ∃ e ls, P.next e = some (P', ls) := by
  constructor
  · intro h
    cases h with
    | start t => exact ⟨.start t, _, rfl⟩
    | answer h =>
      obtain @⟨u, w, c, k, a, m, hw, hk, ha⟩ := h
      obtain ⟨luck, hluck⟩ := answers_iff_reply.mp ha
      exact ⟨.go u luck, _, next_go.mpr ⟨w, c, k, a, m, hw, hk, hluck, rfl, rfl⟩⟩
    | @drop u w p hw hp => exact ⟨.drop u, _, next_drop.mpr ⟨w, p, hw, hp, rfl, rfl⟩⟩
    | clock t => exact ⟨.clock t, _, rfl⟩
  · rintro ⟨e, ls, h⟩
    cases e with
    | start t =>
      obtain ⟨rfl, _⟩ := Prod.mk.inj (Option.some.inj h)
      exact .start t
    | go u luck =>
      obtain ⟨w, c, k, a, m, hw, hk, hluck, rfl, _⟩ := next_go.mp h
      exact .answer (.mk hw hk (answers_iff_reply.mpr ⟨luck, hluck⟩))
    | drop u =>
      obtain ⟨w, p, hw, hp, rfl, _⟩ := next_drop.mp h
      exact .drop hw hp
    | clock t =>
      obtain ⟨rfl, _⟩ := Prod.mk.inj (Option.some.inj h)
      exact .clock t

theorem Runs.concat (h : Runs ρ P es ls Q) (hnext : Q.next e = some (Q', ls')) (hρ : ρ Q Q') :
    Runs ρ P (es ++ [e]) (ls ++ ls') Q' := by
  induction h with
  | nil P =>
    have h := Runs.cons hnext hρ (.nil Q')
    rwa [List.append_nil] at h
  | cons hfirst hr _ ih =>
    rw [List.append_assoc]
    exact .cons hfirst hr (ih hnext hρ)

/-- What is reached is reached by a schedule. -/
theorem reachable_iff_runs : Reachable ρ P Q ↔ ∃ es ls, Runs ρ P es ls Q := by
  constructor
  · intro h
    induction h with
    | refl => exact ⟨[], [], .nil P⟩
    | step _ hs hr ih =>
      obtain ⟨es, ls, h⟩ := ih
      obtain ⟨e, more, hnext⟩ := step_iff_next.mp hs
      exact ⟨_, _, h.concat hnext hr⟩
  · rintro ⟨es, ls, h⟩
    induction h with
    | nil P => exact .refl
    | cons hnext hr _ ih =>
      exact Reachable.trans (.step .refl (step_iff_next.mpr ⟨_, _, hnext⟩) hr) ih

/-- A schedule leads to one pool, with one log. -/
theorem Runs.unique (h : Runs ρ P es ls Q) (h' : Runs ρ' P es ls' Q') : ls = ls' ∧ Q = Q' := by
  induction h generalizing ls' with
  | nil P =>
    cases h' with
    | nil => exact ⟨rfl, rfl⟩
  | cons hnext _ _ ih =>
    cases h' with
    | cons hnext' _ h' =>
      obtain ⟨rfl, rfl⟩ := Prod.mk.inj (Option.some.inj (hnext.symm.trans hnext'))
      obtain ⟨rfl, rfl⟩ := ih h'
      exact ⟨rfl, rfl⟩

/-! ## runs that are computed -/

/-- The pool behind a schedule whose steps all pass a test, and the log. -/
def replay (test : Pool → Pool → Bool) : Pool → List Event → Option (Pool × List LogLine)
  | P, [] => some (P, [])
  | P, e :: es =>
    match P.next e with
    | some (P', ls) =>
      if test P P' then (replay test P' es).map fun x => (x.1, ls ++ x.2) else none
    | none => none

theorem runs_of_replay {test : Pool → Pool → Bool} (htest : ∀ P P', test P P' = true → ρ P P')
    (h : replay test P es = some (Q, ls)) : Runs ρ P es ls Q := by
  induction es generalizing P ls with
  | nil =>
    obtain ⟨rfl, rfl⟩ := Prod.mk.inj (Option.some.inj h)
    exact .nil P
  | cons e es ih =>
    unfold replay at h
    split at h
    · next P' ls' hnext =>
      split at h
      · next hpass =>
        obtain ⟨x, hx, e⟩ := Option.map_eq_some_iff.mp h
        obtain ⟨rfl, rfl⟩ := Prod.mk.inj e
        exact .cons hnext (htest _ _ hpass) (ih hx)
      · simp at h
    · simp at h

end Pool

end JobEngine
