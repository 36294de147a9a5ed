import JobEngine.Proofs.Worker.Rounds

/-!
# Behind a cancellation

* `Worker.Heedful`         where the worker could take notice, it takes no permit;
* `step_dispatches`        a unit that runs a job is begun just where it does take one;
* `dispatched_behind_cancellation`   so none is begun behind a cancellation if and only if the
                           worker is heedful, and at most the listing of its last round is run.

A worker that waits for a permit waits for a cancellation, too, and of the two it may go on with
either as soon as both have come.
-/

namespace JobEngine

namespace Worker

/-- Where the worker could take notice of a cancellation it takes no permit. -/
def Heedful (c : WorkerConfig) (w : Worker) (h : History) : Prop :=
  ∀ as e os bs w', h = as ++ (e, os) :: bs → Steps c w as w' →
    (∃ next, w'.step c .quit = some next) → e ≠ .dispatch

variable {c : WorkerConfig} {w w' w₁ w₂ : Worker} {h : History} {e : Event} {os : List Order}

theorem Steps.eq_of_nil (hsteps : Steps c w [] w') : w' = w := by
  generalize hnil : ([] : History) = h at hsteps
  cases hsteps with
  | nil => rfl
  | step => exact absurd hnil.symm (List.append_ne_nil_of_right_ne_nil _ (List.cons_ne_nil _ _))

/-- What has happened to a worker says where it stands. -/
theorem Steps.unique (h₁ : Steps c w h w₁) (h₂ : Steps c w h w₂) : w₁ = w₂ := by
  induction h using List.reverseRecOn generalizing w₁ w₂ with
  | nil => exact h₁.eq_of_nil.trans h₂.eq_of_nil.symm
  | append_singleton h x ih =>
    obtain ⟨w₃, hbefore₁, hstep₁⟩ := h₁.last
    obtain ⟨w₄, hbefore₂, hstep₂⟩ := h₂.last
    obtain rfl := ih hbefore₁ hbefore₂
    exact (Prod.mk.inj (Option.some.inj (hstep₁.symm.trans hstep₂))).1

theorem step_cancelled (hstep : w.step c e = some (w', os)) (hcancel : w.cancelled = true) :
    w'.cancelled = true := by
  cases turn_of_step hstep with
  | cleans => exact hcancel
  | sends => exact hcancel
  | ends => rwa [cancelled_ending]
  | drops => exact hcancel
  | cancels => rfl
  | moves => exact hcancel

/-- Behind a cancellation due jobs are not called for. -/
theorem Steps.cancelled (hsteps : Steps c w h w') (hcancel : w.cancelled = true) :
    w'.cancelled = true ∧ asked h = false := by
  induction hsteps with
  | nil => exact ⟨hcancel, rfl⟩
  | step before hstep ih =>
    obtain ⟨hcancel, hasked⟩ := ih
    refine ⟨step_cancelled hstep hcancel, ?_⟩
    rw [asked_append, hasked, asked_singleton, any_asks_deeds, Bool.false_or]
    by_contra hasks
    obtain ⟨hgoing, -⟩ := step_asks hstep (eq_true_of_ne_false hasks)
    exact nomatch hgoing.symm.trans hcancel

/-- A worker may take notice while a job waits for a permit or while it rests. -/
theorem step_quit_iff : (∃ next, w.step c .quit = some next) ↔
    w.cancelled = true ∧ ((∃ ids, w.phase = .dispatching ids) ∨ w.phase = .resting) := by
  unfold step
  cases hphase : w.phase <;> cases hcancel : w.cancelled <;> simp

/-- Behind a cancellation a unit that runs a job is begun just where the worker takes a permit and
could take notice. -/
theorem step_dispatches (hstep : w.step c e = some (w', os)) (hcancel : w.cancelled = true) :
    dispatched [(e, os)] ≠ [] ↔ e = .dispatch ∧ ∃ next, w.step c .quit = some next := by
  rw [dispatched_singleton, step_quit_iff]
  cases turn_of_step hstep with
  | cleans phase _ deeds => simp [deeds, phase, Order.runs?]
  | sends phase _ deeds => simp [deeds, phase, hcancel, Order.runs?]
  | ends _ deeds => simp [deeds]
  | drops => simp [deeds]
  | cancels => simp [deeds]
  | moves move deeds =>
    rw [deeds, move.begins_none.2.1]
    refine iff_of_false (fun hne => hne rfl) ?_
    rintro ⟨rfl, -⟩
    cases move with
    | goesOn ready => cases ready

/-- No unit that runs a job is begun behind a cancellation if and only if the worker is heedful. -/
theorem dispatched_eq_nil_iff (hsteps : Steps c w h w') (hcancel : w.cancelled = true) :
    dispatched h = [] ↔ Heedful c w h := by
  constructor
  · rintro hnone as e os bs w₁ rfl has hquit rfl
    obtain ⟨w₂, w₃, has', hstep, -⟩ := hsteps.split_cons
    obtain rfl := has.unique has'
    rw [List.append_cons, dispatched_append, dispatched_append] at hnone
    have hsome := (step_dispatches hstep (has.cancelled hcancel).1).mpr ⟨rfl, hquit⟩
    exact hsome (List.append_eq_nil_iff.mp (List.append_eq_nil_iff.mp hnone).1).2
  · intro hheedful
    induction hsteps with
    | nil => rfl
    | @step h w₁ w₂ e os before hstep ih =>
      have hbefore : Heedful c w h := by
        rintro as e₁ os₁ bs w₃ rfl
        exact hheedful as e₁ os₁ (bs ++ [(e, os)]) w₃ (List.append_assoc ..)
      rw [dispatched_append, ih hbefore, List.nil_append]
      by_contra hsome
      obtain ⟨rfl, hquit⟩ := (step_dispatches hstep (before.cancelled hcancel).1).mp hsome
      exact hheedful h _ os [] w₁ rfl before hquit rfl

/-- **What is dispatched behind a cancellation.**  From any point at which a worker is cancelled,
whatever happens then, no unit that runs a job is begun if and only if the worker takes no permit
where it could take notice.  In any case due jobs are not called for again: at most a call that was
open is answered, and what is run are first ones of the jobs that waited or are listed by that
answer. -/
theorem dispatched_behind_cancellation (hcancel : w.cancelled = true) (hsteps : Steps c w h w') :
    (dispatched h = [] ↔ Heedful c w h) ∧ asked h = false ∧ (due h).length ≤ w.phase.awaited ∧
      dispatched h <+: w.phase.waiting ++ listed h := by
  have hasked := (hsteps.cancelled hcancel).2
  have hcalls := hsteps.calls
  rw [calls_eq_zero hasked] at hcalls
  obtain ⟨left, hjobs, -⟩ := (hsteps.standing hasked).left
  exact ⟨dispatched_eq_nil_iff hsteps hcancel, hasked, by omega, left, hjobs.symm⟩

/-- A worker that is cancelled during its first call for due jobs. -/
def calledOff : Worker := { phase := .polling, free := 10, cancelled := true }

theorem exists_run_calledOff : ∃ h, Run {} h calledOff :=
  ⟨_, .step (.step (.start false) (e := .abandonedListed (.ok [])) rfl) (e := .cancel) rfl⟩

/-- It may take notice in front of the jobs that are listed. -/
theorem calledOff_heedful :
    ∃ h w, Steps {} calledOff h w ∧ Heedful {} calledOff h ∧ listed h = [⟨1#128⟩, ⟨2#128⟩] := by
  have hsteps : Steps {} calledOff _ _ :=
    .step (.step .nil (e := .dueListed (.ok [⟨1#128⟩, ⟨2#128⟩])) rfl) (e := .quit) rfl
  exact ⟨_, _, hsteps, (dispatched_behind_cancellation rfl hsteps).1.mp rfl, rfl⟩

/-- It may run them, too. -/
theorem job_run_behind_cancellation :
    ∃ as w bs w', Run {} as w ∧ w.cancelled = true ∧ Steps {} w bs w' ∧
      dispatched bs = [⟨1#128⟩] := by
  obtain ⟨as, hrun⟩ := exists_run_calledOff
  exact ⟨as, calledOff, _, _, hrun, rfl,
    .step (.step .nil (e := .dueListed (.ok [⟨1#128⟩])) rfl) (e := .dispatch) rfl, rfl⟩

end Worker

end JobEngine
