import JobEngine.Proofs.Worker.Permits
import Mathlib.Data.List.Induction

/-!
# Turns of a worker

All that a step can do, said once, and what a history tells of it.

* `Worker.deeds`           the orders of a step without those for the log and the alarm clock;
* `Worker.swept`, `sent`, `abandoned`   the calls that put jobs back, those that run jobs, and
                           what the listing of abandoned jobs gave;
* `Worker.Ready`, `Onward`   where the worker goes on: into a round, or out of the loop;
* `Worker.Move`            from phase to phase, with the same units;
* `Worker.Turn`            a step: a unit begins, a unit is gone, a cancellation, or a move;
* `Worker.turn_of_step`    there is no other step;
* `Worker.Steps`           a stretch of a run: `Run.split` cuts a run anywhere, `Run.append` joins.
-/

namespace JobEngine

namespace Worker

/-- The jobs that a listing gives; none if it fails. -/
def jobsOf : Except JobError (List JobId) → List JobId
  | .ok ids => ids
  | .error _ => []

/-- The unit that puts a job back, with the job. -/
def Order.cleans? : Order → Option (Nat × JobId)
  | .clean unit id => some (unit, id)
  | _ => none

/-- The unit that runs a job, with the job. -/
def Order.runs? : Order → Option (Nat × JobId)
  | .run unit id _ => some (unit, id)
  | _ => none

/-- Whether due jobs are called for. -/
def Order.asks : Order → Bool
  | .listDue _ _ => true
  | _ => false

/-- Orders for the log and the alarm clock. -/
def Order.quiet : Order → Bool
  | .log _ | .rest _ => true
  | _ => false

def Event.abandoned? : Event → Option (Except JobError (List JobId))
  | .abandonedListed r => some r
  | _ => none

def Event.due? : Event → Option (Except JobError (List JobId))
  | .dueListed r => some r
  | _ => none

def deeds (os : List Order) : List Order := os.filter fun o => !o.quiet

def orders (h : History) : List Order := h.flatMap Prod.snd

/-- The units that put jobs back, in the order in which they were begun. -/
def swept (h : History) : List (Nat × JobId) := (orders h).filterMap Order.cleans?

/-- The units that run jobs, in the order in which they were begun. -/
def sent (h : History) : List (Nat × JobId) := (orders h).filterMap Order.runs?

/-- What the listings of abandoned jobs gave. -/
def abandoned (h : History) : List (Except JobError (List JobId)) :=
  h.filterMap fun x => x.1.abandoned?

/-- What the listings of due jobs gave. -/
def due (h : History) : List (Except JobError (List JobId)) := h.filterMap fun x => x.1.due?

variable {c : WorkerConfig} {w w' : Worker} {h h' : History} {e : Event} {os : List Order}

@[simp] theorem orders_append (h h' : History) : orders (h ++ h') = orders h ++ orders h' :=
  List.flatMap_append

@[simp] theorem orders_singleton (e : Event) (os : List Order) : orders [(e, os)] = os :=
  List.flatMap_singleton ..

@[simp] theorem sent_append (h h' : History) : sent (h ++ h') = sent h ++ sent h' := by
  unfold sent
  rw [orders_append, List.filterMap_append]

@[simp] theorem swept_append (h h' : History) : swept (h ++ h') = swept h ++ swept h' := by
  unfold swept
  rw [orders_append, List.filterMap_append]

@[simp] theorem due_append (h h' : History) : due (h ++ h') = due h ++ due h' :=
  List.filterMap_append

@[simp] theorem abandoned_append (h h' : History) :
    abandoned (h ++ h') = abandoned h ++ abandoned h' := List.filterMap_append

/-- Orders for the log and the alarm clock do not count where nothing is read off them. -/
theorem filterMap_deeds {α : Type} {f : Order → Option α} (hf : ∀ o, o.quiet = true → f o = none)
    (os : List Order) : (deeds os).filterMap f = os.filterMap f := by
  unfold deeds
  rw [List.filterMap_filter]
  refine List.filterMap_congr fun o _ => ?_
  cases ho : o.quiet with
  | true => exact (hf o ho).symm
  | false => rfl

theorem sent_singleton (e : Event) (os : List Order) :
    sent [(e, os)] = (deeds os).filterMap Order.runs? := by
  unfold sent
  rw [orders_singleton, filterMap_deeds]
  intro o ho
  cases o <;> first | rfl | cases ho

theorem swept_singleton (e : Event) (os : List Order) :
    swept [(e, os)] = (deeds os).filterMap Order.cleans? := by
  unfold swept
  rw [orders_singleton, filterMap_deeds]
  intro o ho
  cases o <;> first | rfl | cases ho

theorem due_singleton (e : Event) (os : List Order) : due [(e, os)] = e.due?.toList := by
  unfold due
  cases he : e.due? <;> simp [he]

theorem abandoned_singleton (e : Event) (os : List Order) :
    abandoned [(e, os)] = e.abandoned?.toList := by
  unfold abandoned
  cases he : e.abandoned? <;> simp [he]

theorem mem_deeds {o : Order} (ho : o.quiet = false) : o ∈ deeds os ↔ o ∈ os := by
  unfold deeds
  rw [List.mem_filter, ho]
  exact and_iff_left rfl

@[simp] theorem any_asks_deeds (os : List Order) : (deeds os).any Order.asks = os.any Order.asks := by
  unfold deeds
  rw [List.any_filter]
  congr 1
  funext o
  cases o <;> rfl

@[simp] theorem deeds_append (os os' : List Order) : deeds (os ++ os') = deeds os ++ deeds os' :=
  List.filter_append ..

@[simp] theorem deeds_reports (message : String) (ended : List Bool) :
    deeds (reports message ended) = [] := by
  unfold deeds reports
  rw [List.filter_map, List.map_eq_nil_iff, List.filter_eq_nil_iff]
  exact fun _ _ => nofun

@[simp] theorem deeds_after (out : List Order) (next : Worker × List Order) :
    deeds (after out next).2 = deeds out ++ deeds next.2 := deeds_append ..

/-! ## all that a step can do -/

/-- On into the next round, or out of the loop. -/
inductive Onward (c : WorkerConfig) (w : Worker) : Phase → List Order → Prop
  | round (going : w.cancelled = false) : Onward c w .polling [.listDue c.pickSize c.order]
  | drains (cancelled : w.cancelled = true) : Onward c w .draining [.grace c.shutdownGrace]
  | stops (cancelled : w.cancelled = true) (idle : w.live = []) : Onward c w .stopped []

/-- Where the worker goes on: there is nothing to sweep, the sweep is over, or the worker has
rested. -/
inductive Ready (w : Worker) : Event → Prop
  | noneAbandoned {r : Except JobError (List JobId)} (phase : w.phase = .starting)
      (none : jobsOf r = []) : Ready w (.abandonedListed r)
  | sweepOver (phase : w.phase = .joining) (idle : w.live = []) : Ready w .join
  | wakes (phase : w.phase = .resting) : Ready w .wake
  | quits (phase : w.phase = .resting) (cancelled : w.cancelled = true) : Ready w .quit

/-- From phase to phase, with the same units and the same counters. -/
inductive Move (c : WorkerConfig) (w : Worker) : Event → Phase → List Order → Prop
  | goesOn {e : Event} {next : Phase} {os : List Order} (ready : Ready w e)
      (onward : Onward c w next os) : Move c w e next os
  | sweeps {id : JobId} {ids : List JobId} (phase : w.phase = .starting) :
    Move c w (.abandonedListed (.ok (id :: ids))) (.sweeping (id :: ids)) []
  | awaitsSweep (phase : w.phase = .joining) (alive : w.live ≠ []) : Move c w .join .joining []
  | noneDue {r : Except JobError (List JobId)} (phase : w.phase = .polling) (none : jobsOf r = []) :
    Move c w (.dueListed r) .resting []
  | dispatches {id : JobId} {ids : List JobId} (phase : w.phase = .polling) :
    Move c w (.dueListed (.ok (id :: ids))) (.dispatching (id :: ids)) []
  | leavesOut {ids : List JobId} (phase : w.phase = .dispatching ids)
      (cancelled : w.cancelled = true) : Move c w .quit .resting []
  | awaitsUnits (phase : w.phase = .draining) (alive : w.live ≠ []) : Move c w .join .draining []
  | patienceOver (phase : w.phase = .draining) :
    Move c w .graceOver .aborting [.abort (w.live.map Prod.fst)]
  | stops (phase : w.phase = .draining ∨ w.phase = .aborting) (idle : w.live = []) :
    Move c w .join .stopped []

theorem Ready.phase (h : Ready w e) :
    w.phase = .starting ∨ w.phase = .joining ∨ w.phase = .resting := by
  cases h with
  | noneAbandoned phase => exact .inl phase
  | sweepOver phase => exact .inr (.inl phase)
  | wakes phase => exact .inr (.inr phase)
  | quits phase => exact .inr (.inr phase)

/-- A step: a unit begins, a unit is gone, a cancellation, or a move. -/
inductive Turn (c : WorkerConfig) (w : Worker) : Event → Worker → List Order → Prop
  | cleans {id : JobId} {rest : List JobId} {os : List Order}
      (phase : w.phase = .sweeping (id :: rest)) (free : w.free ≠ 0)
      (deeds : deeds os = [.clean w.nextUnit id]) :
    Turn c w .dispatch
      { (w.hire id).2 with phase := if rest.isEmpty then .joining else .sweeping rest } os
  | sends {id : JobId} {rest : List JobId} {ended : List Bool} {os : List Order}
      (phase : w.phase = .dispatching (id :: rest)) (free : w.free ≠ 0)
      (deeds : deeds os = [.run w.nextUnit id c.execTimeout]) :
    Turn c w .dispatch
      { (w.hire id).2 with
        phase := if rest.isEmpty then .resting else .dispatching rest, ended
        stats := { w.stats with dispatched := w.stats.dispatched + 1 } } os
  | ends {unit : Nat} {id : JobId} {how : Ending} {os : List Order} (alive : (unit, id) ∈ w.live)
      (deeds : deeds os = []) :
    Turn c w (.unitEnded unit how) (w.ending w.phase.isSweep unit id how).1 os
  | drops {unit : Nat} {id : JobId} (phase : w.phase = .aborting) (alive : (unit, id) ∈ w.live) :
    Turn c w (.dropped unit) { w.leave unit with aborted := w.aborted + 1 } []
  | cancels (phase : w.phase ≠ .stopped) : Turn c w .cancel { w with cancelled := true } []
  | moves {e : Event} {next : Phase} {ended : List Bool} {os done : List Order}
      (move : Move c w e next done) (deeds : deeds os = done) :
    Turn c w e { w with phase := next, ended } os

theorem onward_drain (hcancel : w.cancelled = true) :
    ∃ next ended os, w.drain c = ({ w with phase := next, ended }, os) ∧
      Onward c w next (deeds os) := by
  unfold drain
  dsimp only
  split
  · next hidle =>
    have hlive : w.live = [] := List.eq_nil_of_length_eq_zero (Nat.eq_zero_of_add_eq_zero_right hidle)
    exact ⟨.stopped, [], _, rfl, .stops hcancel hlive⟩
  · exact ⟨.draining, w.ended, _, rfl, .drains hcancel⟩

theorem onward_again (c : WorkerConfig) (w : Worker) :
    ∃ next ended os, w.again c = ({ w with phase := next, ended }, os) ∧
      Onward c w next (deeds os) := by
  unfold again
  split
  · next hcancel => exact onward_drain hcancel
  · next hgoing => exact ⟨.polling, w.ended, _, rfl, .round (Bool.eq_false_iff.mpr hgoing)⟩

/-- What moves a worker that has looked after its ended units moves it with them. -/
theorem Onward.of_ended {ended : List Bool} {next : Phase}
    (h : Onward c { w with ended } next os) : Onward c w next os := by
  cases h with
  | round going => exact .round going
  | drains cancelled => exact .drains cancelled
  | stops cancelled idle => exact .stops cancelled idle

theorem deeds_rest (c : WorkerConfig) (w : Worker) : deeds (w.rest c).2 = [] := by
  unfold rest
  rw [deeds_append, deeds_reports]
  rfl

theorem deeds_ending (sweep : Bool) (unit : Nat) (id : JobId) (how : Ending) :
    deeds (w.ending sweep unit id how).2 = [] := by
  cases how <;> cases sweep <;> rfl

@[simp] theorem phase_ending (sweep : Bool) (unit : Nat) (id : JobId) (how : Ending) :
    (w.ending sweep unit id how).1.phase = w.phase := by
  cases how <;> cases sweep <;> rfl

@[simp] theorem live_ending (sweep : Bool) (unit : Nat) (id : JobId) (how : Ending) :
    (w.ending sweep unit id how).1.live = w.live.filter (·.1 != unit) := by
  cases how <;> cases sweep <;> rfl

@[simp] theorem cancelled_ending (sweep : Bool) (unit : Nat) (id : JobId) (how : Ending) :
    (w.ending sweep unit id how).1.cancelled = w.cancelled := by
  cases how <;> cases sweep <;> rfl

/-- A move behind which the next round begins, unless the worker was cancelled. -/
theorem Turn.of_again (out : List Order) {ended : List Bool} (hout : deeds out = [])
    (hready : Ready w e) :
    Turn c w e (after out ({ w with ended }.again c)).1 (after out ({ w with ended }.again c)).2 := by
  obtain ⟨phase, ended', os, heq, honward⟩ := onward_again c { w with ended }
  rw [heq]
  refine .moves (.goesOn hready honward.of_ended) ?_
  rw [deeds_after, hout]
  rfl

/-- A move to the end of a round. -/
theorem Turn.of_rest (out : List Order) (hout : deeds out = []) (hmove : Move c w e .resting []) :
    Turn c w e (after out (w.rest c)).1 (after out (w.rest c)).2 := by
  refine .moves hmove ?_
  rw [deeds_after, hout, deeds_rest]
  rfl

/-- A move behind the last unit. -/
theorem Turn.of_stop (out : List Order) {ended : List Bool} (hout : deeds out = [])
    (hmove : Move c w e .stopped []) :
    Turn c w e (after out { w with ended }.stop).1 (after out { w with ended }.stop).2 := by
  refine .moves hmove ?_
  rw [deeds_after, hout]
  rfl

/-- No step does anything else. -/
theorem turn_of_step {next : Worker × List Order} (h : w.step c e = some next) :
    Turn c w e next.1 next.2 := by
  unfold step at h
  split at h
  case h_1 hphase =>
    exact Option.some.inj h ▸ .of_again [.log _] rfl (.noneAbandoned hphase rfl)
  case h_2 hphase =>
    exact Option.some.inj h ▸ .of_again [] rfl (.noneAbandoned hphase rfl)
  case h_3 ids hids hphase =>
    obtain ⟨id, ids, rfl⟩ := List.exists_cons_of_ne_nil hids
    exact Option.some.inj h ▸ .moves (.sweeps hphase) rfl
  case h_4 id rest hphase =>
    split at h
    · cases h
    · next hfree => exact Option.some.inj h ▸ .cleans hphase hfree rfl
  case h_5 hphase =>
    have hout := deeds_reports "recovery task died" w.ended
    dsimp only at h
    split at h
    · next hempty =>
      exact Option.some.inj h ▸ .of_again _ hout (.sweepOver hphase (List.isEmpty_iff.mp hempty))
    · next halive =>
      have hmove : Move c w .join w.phase [] :=
        hphase ▸ .awaitsSweep hphase (mt List.isEmpty_iff.mpr halive)
      exact Option.some.inj h ▸ .moves hmove hout
  case h_6 hphase =>
    exact Option.some.inj h ▸ .of_rest [.log _] rfl (.noneDue hphase rfl)
  case h_7 hphase =>
    exact Option.some.inj h ▸ .of_rest [.log _] rfl (.noneDue hphase rfl)
  case h_8 ids hids hphase =>
    obtain ⟨id, ids, rfl⟩ := List.exists_cons_of_ne_nil hids
    exact Option.some.inj h ▸ .moves (.dispatches hphase) rfl
  case h_9 id rest hphase =>
    split at h
    · cases h
    · next hfree =>
      obtain rfl := Option.some.inj h
      cases rest with
      | nil => exact .sends hphase hfree (congrArg (_ :: ·) (deeds_rest c w))
      | cons => exact .sends hphase hfree rfl
  case h_10 hphase =>
    split at h
    · next hcancel =>
      exact Option.some.inj h ▸ .of_rest [] rfl (.leavesOut hphase hcancel)
    · cases h
  case h_11 hphase =>
    split at h
    · next hcancel =>
      obtain ⟨phase, ended, os, heq, honward⟩ := onward_drain (c := c) hcancel
      rw [← Option.some.inj h, heq]
      exact .moves (.goesOn (.quits hphase hcancel) honward) rfl
    · cases h
  case h_12 hphase =>
    exact Option.some.inj h ▸ .of_again [] rfl (.wakes hphase)
  case h_13 hphase =>
    have hout := deeds_reports "execution unit panicked" w.ended
    dsimp only at h
    split at h
    · next hempty =>
      exact Option.some.inj h ▸ .of_stop _ hout (.stops (.inl hphase) (List.isEmpty_iff.mp hempty))
    · next halive =>
      have hmove : Move c w .join w.phase [] :=
        hphase ▸ .awaitsUnits hphase (mt List.isEmpty_iff.mpr halive)
      exact Option.some.inj h ▸ .moves hmove hout
  case h_14 hphase =>
    refine Option.some.inj h ▸ .moves (.patienceOver hphase) ?_
    rw [deeds_append, deeds_reports]
    rfl
  case h_15 unit hphase =>
    split at h
    · next halive =>
      obtain ⟨⟨u, id⟩, hu, heq⟩ := List.any_eq_true.mp halive
      obtain rfl : u = unit := eq_of_beq heq
      exact Option.some.inj h ▸ .drops hphase hu
    · cases h
  case h_16 hphase =>
    split at h
    · next hempty =>
      exact Option.some.inj h ▸ .moves (.stops (.inr hphase) (List.isEmpty_iff.mp hempty)) rfl
    · cases h
  case h_17 unit how =>
    split at h
    · next u id hu =>
      have heq := List.find?_some hu
      obtain rfl : u = unit := eq_of_beq heq
      exact Option.some.inj h ▸ .ends (List.mem_of_find?_eq_some hu) (deeds_ending ..)
    · cases h
  case h_18 => cases h
  case h_19 hphase => exact Option.some.inj h ▸ .cancels hphase
  case h_20 => cases h

/-! ## stretches of a run -/

/-- What happens from a worker to a later one. -/
inductive Steps (c : WorkerConfig) (w : Worker) : History → Worker → Prop
  | nil : Steps c w [] w
  | step {h : History} {w₁ w₂ : Worker} {e : Event} {os : List Order} (before : Steps c w h w₁)
      (hstep : w₁.step c e = some (w₂, os)) : Steps c w (h ++ [(e, os)]) w₂

theorem Steps.last (hsteps : Steps c w (h ++ [(e, os)]) w') :
    ∃ w₁, Steps c w h w₁ ∧ w₁.step c e = some (w', os) := by
  generalize hall : h ++ [(e, os)] = all at hsteps
  cases hsteps with
  | nil => exact absurd hall (List.append_ne_nil_of_right_ne_nil _ (List.cons_ne_nil _ _))
  | step before hstep =>
    obtain ⟨rfl, hlast⟩ := List.append_inj' hall rfl
    obtain ⟨rfl, rfl⟩ := Prod.mk.inj (List.singleton_inj.mp hlast)
    exact ⟨_, before, hstep⟩

theorem Steps.split (hsteps : Steps c w (h ++ h') w') :
    ∃ w₁, Steps c w h w₁ ∧ Steps c w₁ h' w' := by
  induction h' using List.reverseRecOn generalizing w' with
  | nil => exact ⟨w', List.append_nil h ▸ hsteps, .nil⟩
  | append_singleton h' x ih =>
    rw [← List.append_assoc] at hsteps
    obtain ⟨w₂, hbefore, hstep⟩ := hsteps.last
    obtain ⟨w₁, has, hbs⟩ := ih hbefore
    exact ⟨w₁, has, hbs.step hstep⟩

/-- A run may be cut at any of its events. -/
theorem Steps.split_cons (hsteps : Steps c w (h ++ (e, os) :: h') w') :
    ∃ w₁ w₂, Steps c w h w₁ ∧ w₁.step c e = some (w₂, os) ∧ Steps c w₂ h' w' := by
  obtain ⟨w₂, hfirst, hrest⟩ := (List.append_cons h (e, os) h' ▸ hsteps).split
  obtain ⟨w₁, has, hstep⟩ := hfirst.last
  exact ⟨w₁, w₂, has, hstep, hrest⟩

/-- A run is a stretch from a worker that starts. -/
theorem run_iff_steps : Run c h w ↔ ∃ cancelled, Steps c (start c cancelled).1 h w := by
  constructor
  · intro hrun
    induction hrun with
    | start cancelled => exact ⟨cancelled, .nil⟩
    | step before hstep ih => exact ih.imp fun _ hsteps => hsteps.step hstep
  · rintro ⟨cancelled, hsteps⟩
    induction hsteps with
    | nil => exact .start cancelled
    | step before hstep ih => exact ih.step hstep

theorem Run.append (hrun : Run c h w) (hsteps : Steps c w h' w') : Run c (h ++ h') w' := by
  induction hsteps with
  | nil => exact (List.append_nil h).symm ▸ hrun
  | step before hstep ih => exact List.append_assoc h _ _ ▸ ih.step hstep

/-- A run may be cut at any of its events. -/
theorem Run.split (hrun : Run c (h ++ (e, os) :: h') w') :
    ∃ w₁ w₂, Run c h w₁ ∧ w₁.step c e = some (w₂, os) ∧ Steps c w₂ h' w' := by
  obtain ⟨cancelled, hsteps⟩ := run_iff_steps.mp hrun
  obtain ⟨w₁, w₂, hfirst, hstep, hrest⟩ := hsteps.split_cons
  exact ⟨w₁, w₂, run_iff_steps.mpr ⟨cancelled, hfirst⟩, hstep, hrest⟩

end Worker

end JobEngine
