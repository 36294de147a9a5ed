import JobEngine.Proofs.Worker.Accounts

/-!
# The end of a run

* `Run.stopped_idle`         a worker that has stopped has no unit;
* `Worker.OnTime`            ticks at which no alarm clock rings early;
* `step_grace`, `step_abort`   when the clock is set, and what is aborted when it has rung;
* `every_unit_is_accounted_for`   the counters add up at every point of a run, and at its end.
-/

namespace JobEngine

namespace Worker

variable {c : WorkerConfig} {w w' : Worker} {h : History} {e : Event} {os : List Order}

/-! ## the end of a run -/

theorem Move.idle (hmove : Move c w e .stopped os) : w.live = [] := by
  cases hmove with
  | goesOn _ onward => cases onward with
    | stops _ idle => exact idle
  | stops _ idle => exact idle

/-- A worker that has stopped has no unit. -/
theorem Run.stopped_idle (hrun : Run c h w) (hstopped : w.phase = .stopped) : w.live = [] := by
  induction hrun with
  | start => cases hstopped
  | step before hstep ih =>
    cases turn_of_step hstep with
    | @cleans id rest => cases rest <;> cases hstopped
    | @sends id rest => cases rest <;> cases hstopped
    | @ends unit id how _ alive =>
      rw [phase_ending] at hstopped
      rw [ih hstopped] at alive
      cases alive
    | drops phase => cases phase.symm.trans hstopped
    | cancels phase => exact absurd hstopped phase
    | moves move =>
      subst hstopped
      exact move.idle

/-- Nothing happens to it any more. -/
theorem step_stopped (hstopped : w.phase = .stopped) (hidle : w.live = []) (e : Event) :
    w.step c e = none := by
  cases e <;> simp [step, hstopped, hidle]

/-! ## patience -/

/-- With this event a worker begins to drain. -/
def Drains (c : WorkerConfig) (h : History) (e : Event) (os : List Order) : Prop :=
  ∃ w w', Run c h w ∧ w.step c e = some (w', os) ∧ w.phase ≠ .draining ∧ w'.phase = .draining

/-- Each event has its tick, by the number of those before it.  The alarm clock never rings
early: that its patience is over is told to a worker as long behind the order as it says. -/
def OnTime (ticks : Nat → Nat) (h : History) : Prop :=
  ∀ as os bs, h = as ++ (.graceOver, os) :: bs →
    ∃ as₁ e₁ os₁ bs₁ millis, as = as₁ ++ (e₁, os₁) :: bs₁ ∧ .grace millis ∈ os₁ ∧
      ticks as₁.length + millis ≤ ticks as.length

theorem Move.grace {next : Phase} {millis : Nat} (hmove : Move c w e next os) :
    .grace millis ∈ os ↔ millis = c.shutdownGrace ∧ w.phase ≠ .draining ∧ next = .draining := by
  cases hmove with
  | goesOn ready onward =>
    have hphase : w.phase ≠ .draining := by
      rcases ready.phase with phase | phase | phase <;> exact phase ▸ nofun
    cases onward <;> simp [hphase]
  | awaitsUnits phase => simp [phase]
  | _ => simp

/-- The order for the alarm clock comes with the begin of draining. -/
theorem step_grace {millis : Nat} (hstep : w.step c e = some (w', os)) :
    .grace millis ∈ os ↔
      millis = c.shutdownGrace ∧ w.phase ≠ .draining ∧ w'.phase = .draining := by
  rw [← mem_deeds rfl]
  cases turn_of_step hstep with
  | @cleans id rest _ _ _ deeds => cases rest <;> simp [deeds]
  | @sends id rest _ _ _ _ deeds => cases rest <;> simp [deeds]
  | ends _ deeds => simp [deeds]
  | drops phase => simp [leave, phase, deeds]
  | cancels => simp [deeds]
  | moves move deeds => exact deeds ▸ move.grace

/-- Units are aborted where patience is over, all that are alive. -/
theorem step_abort {units : List Nat} (hstep : w.step c e = some (w', os))
    (habort : .abort units ∈ os) : e = .graceOver ∧ units = w.live.map Prod.fst := by
  rw [← mem_deeds rfl] at habort
  cases turn_of_step hstep with
  | cleans _ _ deeds => simp [deeds] at habort
  | sends _ _ deeds => simp [deeds] at habort
  | ends _ deeds => simp [deeds] at habort
  | drops => cases habort
  | cancels => cases habort
  | moves move deeds =>
    rw [deeds] at habort
    cases move with
    | goesOn _ onward => cases onward <;> simp at habort
    | patienceOver => exact ⟨rfl, Order.abort.inj (List.mem_singleton.mp habort)⟩
    | _ => cases habort

/-- A worker that drains has asked to be told when its patience is over. -/
theorem Run.draining (hrun : Run c h w) (hphase : w.phase = .draining) :
    ∃ as e os bs, h = as ++ (e, os) :: bs ∧ .grace c.shutdownGrace ∈ os := by
  induction hrun with
  | start => cases hphase
  | @step h w w' e os before hstep ih =>
    by_cases hdrains : w.phase = .draining
    · obtain ⟨as, e₁, os₁, bs, rfl, hgrace⟩ := ih hdrains
      exact ⟨as, e₁, os₁, bs ++ [(e, os)], List.append_assoc .., hgrace⟩
    · exact ⟨h, e, os, [], rfl, (step_grace hstep).mpr ⟨rfl, hdrains, hphase⟩⟩

/-- What a worker that has lost its patience waits for is what it has aborted. -/
theorem Run.aborting (hrun : Run c h w) (hphase : w.phase = .aborting) :
    ∃ units, .abort units ∈ orders h ∧ ∀ x ∈ w.live, x.1 ∈ units := by
  induction hrun with
  | start => cases hphase
  | @step h w w' e os before hstep ih =>
    have hearlier {live : List (Nat × JobId)} (hbefore : w.phase = .aborting)
        (hlive : ∀ x ∈ live, x ∈ w.live) :
        ∃ units, .abort units ∈ orders (h ++ [(e, os)]) ∧ ∀ x ∈ live, x.1 ∈ units := by
      obtain ⟨units, horder, hunits⟩ := ih hbefore
      rw [orders_append]
      exact ⟨units, List.mem_append_left _ horder, fun x hx => hunits x (hlive x hx)⟩
    cases turn_of_step hstep with
    | @cleans id rest => cases rest <;> cases hphase
    | @sends id rest => cases rest <;> cases hphase
    | @ends unit id how =>
      rw [phase_ending] at hphase
      rw [live_ending]
      exact hearlier hphase fun x hx => (List.mem_filter.mp hx).1
    | drops phase => exact hearlier phase fun x hx => (List.mem_filter.mp hx).1
    | cancels => exact hearlier hphase fun x hx => hx
    | moves move deeds =>
      subst hphase
      cases move with
      | patienceOver =>
        refine ⟨w.live.map Prod.fst, ?_, fun x hx => List.mem_map_of_mem hx⟩
        rw [orders_append, orders_singleton]
        exact List.mem_append_right _ ((mem_deeds rfl).mp (deeds ▸ List.mem_singleton_self _))
      | goesOn _ onward => cases onward

/-- The ticks of any run may be such that no alarm clock rings early. -/
theorem Run.onTime (hrun : Run c h w) : OnTime (fun n => n * c.shutdownGrace) h := by
  rintro as os bs rfl
  obtain ⟨w₁, w₂, hfirst, hstep, -⟩ := hrun.split
  have hphase : w₁.phase = .draining := by
    cases turn_of_step hstep with
    | moves move => cases move with
      | goesOn ready => cases ready
      | patienceOver phase => exact phase
  obtain ⟨as₁, e₁, os₁, bs₁, rfl, hgrace⟩ := hfirst.draining hphase
  refine ⟨as₁, e₁, os₁, bs₁, c.shutdownGrace, rfl, hgrace, ?_⟩
  rw [← Nat.succ_mul]
  exact Nat.mul_le_mul_right _ (by simp)

/-- **Every unit is accounted for, and none survives the worker.**  At every point of every run,
whatever the listings give, however the units end and whenever the worker is cancelled, each unit
that was sent off is counted, and each counter tells how many of them have come to its fate; so
those sent off are those that completed, failed, broke down or were aborted and those still alive.
Units are aborted where the worker's patience is over, as long behind the begin of draining as it is
set up for if no alarm clock rings early, and they are those alive in that moment; no others are
dropped.  A worker that has stopped has no unit alive, of its sweep or of its rounds, and nothing
happens to it any more. -/
theorem every_unit_is_accounted_for (hrun : Run c h w) :
    w.stats.dispatched = (sent h).length ∧
      (∀ f, w.count f = tally h (sent h) (some f)) ∧
      w.stats.dispatched = w.stats.completed + w.stats.failed + w.panicked + w.aborted +
        tally h (sent h) none ∧
      (∀ ticks, OnTime ticks h → ∀ as e os bs units, h = as ++ (e, os) :: bs →
        .abort units ∈ os → units = alive as ∧
          ∃ as₁ e₁ os₁ bs₁, as = as₁ ++ (e₁, os₁) :: bs₁ ∧ Drains c as₁ e₁ os₁ ∧
            ticks as₁.length + c.shutdownGrace ≤ ticks as.length) ∧
      (∀ as unit os bs, h = as ++ (.dropped unit, os) :: bs →
        ∃ units, .abort units ∈ orders as ∧ unit ∈ units) ∧
      (w.phase = .stopped → alive h = [] ∧
        w.stats.dispatched = w.stats.completed + w.stats.failed + w.panicked + w.aborted ∧
        ∀ e, w.step c e = none) := by
  have hw := hrun.accounted
  have hsum : w.stats.dispatched = w.stats.completed + w.stats.failed + w.panicked + w.aborted +
      tally h (sent h) none := by
    have hlength := length_eq_tally h (sent h)
    rwa [← hw.dispatched, ← hw.counts, ← hw.counts, ← hw.counts, ← hw.counts] at hlength
  refine ⟨hw.dispatched, hw.counts, hsum, ?abort, ?dropped, fun hstopped => ?stopped⟩
  case abort =>
    rintro ticks hticks as e os bs units rfl habort
    obtain ⟨w₁, w₂, hfirst, hstep, -⟩ := hrun.split
    obtain ⟨rfl, rfl⟩ := step_abort hstep habort
    refine ⟨hfirst.counted.alive.symm, ?_⟩
    obtain ⟨as₁, e₁, os₁, bs₁, millis, rfl, hgrace, htime⟩ := hticks as os bs rfl
    obtain ⟨w₃, w₄, hearlier, hdrains, -⟩ := hfirst.split
    obtain ⟨rfl, hbefore, hbehind⟩ := (step_grace hdrains).mp hgrace
    exact ⟨as₁, e₁, os₁, bs₁, rfl, ⟨w₃, w₄, hearlier, hdrains, hbefore, hbehind⟩, htime⟩
  case dropped =>
    rintro as unit os bs rfl
    obtain ⟨w₁, w₂, hfirst, hstep, -⟩ := hrun.split
    cases turn_of_step hstep with
    | drops phase alive =>
      obtain ⟨units, horder, hunits⟩ := hfirst.aborting phase
      exact ⟨units, horder, hunits _ alive⟩
    | moves move => cases move with
      | goesOn ready => cases ready
  case stopped =>
    have hidle := hrun.stopped_idle hstopped
    have hnone : tally h (sent h) none = 0 := by
      unfold tally
      rw [List.countP_eq_zero]
      intro x hx
      exact mt of_decide_eq_true (hrun.counted.fate_idle hidle (List.mem_append_right _ hx))
    rw [hnone, Nat.add_zero] at hsum
    refine ⟨?_, hsum, step_stopped hstopped hidle⟩
    rw [hrun.counted.alive, hidle]
    rfl

/-- One abandoned job is put back.  Of four units one completes, one fails, one breaks down and one
outlives the patience of the worker. -/
def eventful : List Event :=
  [.abandonedListed (.ok [⟨1#128⟩]), .dispatch, .unitEnded 0 .ok, .join,
    .dueListed (.ok [⟨2#128⟩, ⟨3#128⟩, ⟨4#128⟩, ⟨5#128⟩]), .dispatch, .dispatch, .dispatch, .dispatch,
    .unitEnded 1 .ok, .unitEnded 2 (.failed (.lockBusy ⟨3#128⟩)), .unitEnded 3 .panicked, .cancel,
    .quit, .graceOver, .dropped 4, .join]

theorem stopped_with_every_fate :
    ∃ h w, Run {} h w ∧ OnTime (fun n => n * 10000) h ∧ w.phase = .stopped ∧ alive h = [] ∧
      (sent h).length = 4 ∧ (∀ f, tally h (sent h) (some f) = 1) ∧ ∀ e, w.step {} e = none := by
  obtain ⟨h, w, hrun, hf⟩ := run_of_happen (c := {}) eventful
    (fun _ w => (w.phase, w.stats.dispatched, w.stats.completed, w.stats.failed, w.panicked,
      w.aborted)) (v := (.stopped, 4, 1, 1, 1, 1)) (by decide)
  simp only [Prod.mk.injEq] at hf
  obtain ⟨hphase, hdispatched, hcompleted, hfailed, hpanicked, haborted⟩ := hf
  obtain ⟨hsent, hcounts, -, -, -, hstopped⟩ := every_unit_is_accounted_for hrun
  obtain ⟨hidle, -, hnone⟩ := hstopped hphase
  refine ⟨h, w, hrun, hrun.onTime, hphase, hidle, hsent ▸ hdispatched, fun f => ?_, hnone⟩
  rw [← hcounts]
  cases f <;> assumption

end Worker

end JobEngine
