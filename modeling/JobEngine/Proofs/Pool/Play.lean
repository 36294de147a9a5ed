import JobEngine.Proofs.Pool.Sound

/-!
# Runs by a script

A list of cues says which unit goes on next, and what its action answers.

* `Pool.play`           the pool behind a script;
* `reachable_of_play`   it is reached by steps that keep the rule that was tested;
* `Pool.acts`, `Pool.lastRun`   the runs of actions that go on, or start, at its end;
* `Pool.lone`           a store with one pending job, to play on.
-/

namespace JobEngine

/-- The job whose action is run. -/
def EngineCall.acts : EngineCall → Option JobId
  | .invoke i => some i.job
  | _ => none

theorem EngineCall.acts_eq_some {c : EngineCall} {id : JobId} (h : c.acts = some id) :
    ∃ i, c = .invoke i ∧ i.job = id := by
  cases c with
  | invoke i => exact ⟨i, rfl, Option.some.inj h⟩
  | _ => simp [acts] at h

namespace Pool

inductive Cue
  | start (t : Task)
  /-- A unit goes on; `r` is what an action answers. -/
  | go (u : Nat) (r : Option (Except ActionError Json) := none)
  | drop (u : Nat)
  | clock (t : Instant)

/-- The answer of a store that does not fail and of notifiers that take every event. -/
def reply (m : Memory) (now : Instant) (r : Option (Except ActionError Json)) :
    (c : EngineCall) → Option (c.Answer × Memory)
  | .store c => let x := m.perform c; x.1.map fun a => (a, x.2)
  | .clock => some (now, m)
  | .publish _ => some (.ok (), m)
  | .invoke _ => some (r, m)
  | .log _ => some ((), m)
  | .freshId => some (World.madeId 1, m)
  | .pause _ => some ((), m)

/-- One cue; nothing if the unit cannot go on. -/
def follow (P : Pool) : Cue → Option Pool
  | .start t => some (P.start t)
  | .go u r =>
    match P.units[u]? with
    | some w =>
      match w.rest with
      | some (.call c k) => (reply P.memory P.now r c).map fun x => P.goOn u w ⟨c, x.1⟩ (k x.1) x.2
      | _ => none
    | none => none
  | .drop u =>
    match P.units[u]? with
    | some w => if w.rest.isSome then some (P.drop u w) else none
    | none => none
  | .clock t => some { P with now := t }

/-- The pool behind a script whose steps all pass a test. -/
def play (test : Pool → Pool → Bool) : Pool → List Cue → Option Pool
  | P, [] => some P
  | P, q :: rest =>
    match P.follow q with
    | some P' => if test P P' then play test P' rest else none
    | none => none

variable {P P' : Pool} {ρ : Pool → Pool → Prop}

theorem reply_answers {m m' : Memory} {now : Instant} {r : Option (Except ActionError Json)}
    {c : EngineCall} {a : c.Answer} (h : reply m now r c = some (a, m')) :
    Answers m now c a m' := by
  cases c with
  | store c =>
    obtain ⟨a', ha, e⟩ := Option.map_eq_some_iff.mp h
    obtain ⟨rfl, rfl⟩ := Prod.mk.inj e
    exact .performed (Prod.ext ha rfl)
  | clock => obtain ⟨rfl, rfl⟩ := Prod.mk.inj (Option.some.inj h); exact .clock
  | publish e => obtain ⟨rfl, rfl⟩ := Prod.mk.inj (Option.some.inj h); exact .publish e _
  | invoke i => obtain ⟨rfl, rfl⟩ := Prod.mk.inj (Option.some.inj h); exact .invoke i _
  | log l => obtain ⟨rfl, rfl⟩ := Prod.mk.inj (Option.some.inj h); exact .log l
  | freshId => obtain ⟨rfl, rfl⟩ := Prod.mk.inj (Option.some.inj h); exact .freshId _
  | pause n => obtain ⟨rfl, rfl⟩ := Prod.mk.inj (Option.some.inj h); exact .pause n

theorem happens_go {u : Nat} {r : Option (Except ActionError Json)}
    (h : P.follow (.go u r) = some P') : ∃ d, P.Happens d P' := by
  simp only [follow] at h
  split at h
  · next w hw =>
    split at h
    · next c k hk =>
      obtain ⟨x, hx, rfl⟩ := Option.map_eq_some_iff.mp h
      exact ⟨_, .mk hw hk (reply_answers hx)⟩
    · simp at h
  · simp at h

theorem step_follow {q : Cue} (h : P.follow q = some P') : P.Step P' := by
  cases q with
  | start t => obtain rfl := Option.some.inj h; exact .start t
  | go u r =>
    obtain ⟨d, hd⟩ := happens_go h
    exact .answer hd
  | drop u =>
    simp only [follow] at h
    split at h
    · next w hw =>
      split at h
      · next hrest =>
        obtain rfl := Option.some.inj h
        obtain ⟨p, hp⟩ := Option.isSome_iff_exists.mp hrest
        exact .drop hw hp
      · simp at h
    · simp at h
  | clock t => obtain rfl := Option.some.inj h; exact .clock t

theorem reachable_play {test : Pool → Pool → Bool} (htest : ∀ P P', test P P' = true → ρ P P')
    {script : List Cue} {P₀ : Pool} (h : play test P script = some P')
    (hP : Reachable ρ P₀ P) : Reachable ρ P₀ P' := by
  induction script generalizing P with
  | nil => exact Option.some.inj h ▸ hP
  | cons q rest ih =>
    unfold play at h
    split at h
    · next Q hQ =>
      split at h
      · next hq => exact ih h (.step hP (step_follow hQ) (htest _ _ hq))
      · simp at h
    · simp at h

/-- What is computed from the pool behind a script holds of a pool that is reached. -/
theorem reachable_of_play {α : Type} (test : Pool → Pool → Bool) (script : List Cue)
    (f : Pool → α) {a : α} (htest : ∀ P P', test P P' = true → ρ P P')
    (h : (play test P script).map f = some a) : ∃ Q, Reachable ρ P Q ∧ f Q = a := by
  obtain ⟨Q, hQ, hf⟩ := Option.map_eq_some_iff.mp h
  exact ⟨Q, reachable_play htest hQ .refl, hf⟩

/-- The job whose action a unit runs. -/
def acts (P : Pool) (u : Nat) : Option JobId :=
  (P.units[u]?.bind WorkUnit.question).bind EngineCall.acts

theorem acts_eq_some {u : Nat} {id : JobId} (h : P.acts u = some id) :
    ∃ w p i, P.At u w p ∧ p.question = some (.invoke i) ∧ i.job = id := by
  obtain ⟨c, hc, hacts⟩ := Option.bind_eq_some_iff.mp h
  obtain ⟨w, hw, hq⟩ := Option.bind_eq_some_iff.mp hc
  obtain ⟨p, hp, hq⟩ := Option.bind_eq_some_iff.mp hq
  obtain ⟨i, rfl, hjob⟩ := EngineCall.acts_eq_some hacts
  exact ⟨w, p, i, ⟨hw, hp⟩, hq, hjob⟩

/-- The run of an action that the last deed starts: its job, its unit and the time. -/
def lastRun (P : Pool) : Option (JobId × Nat × Instant) :=
  P.past.getLast?.bind fun d => (d.asks.bind EngineCall.acts).map fun id => (id, d.unit, d.time)

theorem lastRun_eq_some {id : JobId} {u : Nat} {t : Instant} (h : P.lastRun = some (id, u, t)) :
    ∃ xs d i, P.past = xs ++ [d] ∧ d.Invokes i ∧ i.job = id ∧ d.unit = u ∧ d.time = t := by
  obtain ⟨d, hd, hrun⟩ := Option.bind_eq_some_iff.mp h
  obtain ⟨xs, hsplit⟩ := List.getLast?_eq_some_iff.mp hd
  obtain ⟨id', hasks, e⟩ := Option.map_eq_some_iff.mp hrun
  obtain ⟨rfl, hrest⟩ := Prod.mk.inj e
  obtain ⟨hunit, htime⟩ := Prod.mk.inj hrest
  obtain ⟨c, hc, hacts⟩ := Option.bind_eq_some_iff.mp hasks
  obtain ⟨i, rfl, hjob⟩ := EngineCall.acts_eq_some hacts
  exact ⟨xs, d, i, hsplit, hc, hjob, hunit, htime⟩

/-! ## a store to play on -/

/-- A job that was just created. -/
def lone : Job where
  id := ⟨1#128⟩
  project := .system
  action := "echo"
  status := .pending
  params := .null
  result := none
  error := none
  runAt := .epoch
  tryPeriod := 600
  tryMax := 3
  trys := 0
  created := .epoch
  updated := .epoch

def loneStore : Memory := { rows := [(lone.id, lone)] }

theorem quiet_single (j : Job) : Memory.Quiet { rows := [(j.id, j)] } where
  rows_distinct := List.nodup_cons.mpr ⟨List.not_mem_nil, List.nodup_nil⟩
  filed {id j'} h := by
    change Table.get? id [(j.id, j)] = some j' at h
    rw [Table.get?_cons] at h
    split at h
    · next e => exact Option.some.inj h ▸ e
    · simp at h
  no_lock := rfl
  no_session := rfl

theorem loneStore_quiet : loneStore.Quiet := quiet_single lone

/-- A unit that runs the job, on a worker that knows its action. -/
def loneRun : Task := .run ⟨[lone.action]⟩ "worker" lone.id 1000

def loneClean : Task := .clean "worker" lone.id

/-- A unit goes on `n` times. -/
def goes (u n : Nat) : List Cue := List.replicate n (.go u)

end Pool

end JobEngine
