import JobEngine.Proofs.Worker.Accounts

/-!
# The sweep and the rounds of a worker

* `Worker.Sweep`, `Run.sweep`   what was listed as abandoned has been put back, up to what waits;
* `Steps.calls`              each call for due jobs has one answer;
* `Worker.Standing`, `Steps.standing`   between two calls what was listed has been sent off in its
                             order, up to what waits or was left out;
* `Run.isOver`               the loop ends for a cancellation alone;
* `Worker.SweepsFirst`, `RunsWhatIsListed`   the order of all the calls of a run;
* `sweep_first_then_what_is_listed`   every run keeps it.
-/

namespace JobEngine

namespace Worker

/-- Due jobs that were listed and wait for a permit. -/
def Phase.waiting : Phase → List JobId
  | .dispatching ids => ids
  | _ => []

/-- The jobs that are put back, in their order. -/
def cleaned (h : History) : List JobId := (swept h).map Prod.snd

/-- The jobs that are run, in their order. -/
def dispatched (h : History) : List JobId := (sent h).map Prod.snd

/-- The jobs that are listed as due, in their order. -/
def listed (h : History) : List JobId := (due h).flatMap jobsOf

/-- Whether due jobs are called for. -/
def asked (h : History) : Bool := (orders h).any Order.asks

variable {c : WorkerConfig} {w w' : Worker} {h h' : History} {e : Event} {os : List Order}
  {done : List JobId}

@[simp] theorem cleaned_append (h h' : History) : cleaned (h ++ h') = cleaned h ++ cleaned h' := by
  simp [cleaned]

@[simp] theorem dispatched_append (h h' : History) :
    dispatched (h ++ h') = dispatched h ++ dispatched h' := by
  simp [dispatched]

@[simp] theorem listed_append (h h' : History) : listed (h ++ h') = listed h ++ listed h' := by
  simp [listed]

@[simp] theorem asked_append (h h' : History) : asked (h ++ h') = (asked h || asked h') := by
  simp [asked]

theorem cleaned_singleton (e : Event) (os : List Order) :
    cleaned [(e, os)] = ((deeds os).filterMap Order.cleans?).map Prod.snd := by
  rw [cleaned, swept_singleton]

theorem dispatched_singleton (e : Event) (os : List Order) :
    dispatched [(e, os)] = ((deeds os).filterMap Order.runs?).map Prod.snd := by
  rw [dispatched, sent_singleton]

theorem listed_singleton (e : Event) (os : List Order) :
    listed [(e, os)] = e.due?.toList.flatMap jobsOf := by
  rw [listed, due_singleton]

theorem asked_singleton (e : Event) (os : List Order) :
    asked [(e, os)] = (deeds os).any Order.asks := by
  rw [any_asks_deeds]
  simp [asked]

/-! ## the sweep -/

/-- The abandoned jobs that wait for a permit; nothing as long as they are not listed. -/
def Phase.unswept : Phase → Option (List JobId)
  | .starting => none
  | .sweeping ids => some ids
  | _ => some []

/-- What was listed as abandoned has been put back, up to what waits. -/
def Sweep (answers : List (Except JobError (List JobId))) (done : List JobId) :
    Option (List JobId) → Prop
  | none => answers = [] ∧ done = []
  | some left => ∃ r, answers = [r] ∧ jobsOf r = done ++ left

/-- Only the answer to the first call of all changes what waits for the sweep. -/
theorem Move.unswept {next : Phase} (hmove : Move c w e next os) :
    e.abandoned? = none ∧ next.unswept = w.phase.unswept ∨
      w.phase = .starting ∧ ∃ r, e.abandoned? = some r ∧ next.unswept = some (jobsOf r) := by
  cases hmove with
  | goesOn ready onward =>
    have hnext : next.unswept = some [] := by cases onward <;> rfl
    cases ready with
    | noneAbandoned phase none => exact .inr ⟨phase, _, rfl, none ▸ hnext⟩
    | sweepOver phase => exact .inl ⟨rfl, phase ▸ hnext⟩
    | wakes phase => exact .inl ⟨rfl, phase ▸ hnext⟩
    | quits phase => exact .inl ⟨rfl, phase ▸ hnext⟩
  | sweeps phase => exact .inr ⟨phase, _, rfl, rfl⟩
  | awaitsSweep phase => exact .inl ⟨rfl, phase ▸ rfl⟩
  | noneDue phase => exact .inl ⟨rfl, phase ▸ rfl⟩
  | dispatches phase => exact .inl ⟨rfl, phase ▸ rfl⟩
  | leavesOut phase => exact .inl ⟨rfl, phase ▸ rfl⟩
  | awaitsUnits phase => exact .inl ⟨rfl, phase ▸ rfl⟩
  | patienceOver phase => exact .inl ⟨rfl, phase ▸ rfl⟩
  | stops phase => exact .inl ⟨rfl, by rcases phase with phase | phase <;> exact phase ▸ rfl⟩

theorem sweep_step (hs : Sweep (abandoned h) (cleaned h) w.phase.unswept)
    (hstep : w.step c e = some (w', os)) :
    Sweep (abandoned (h ++ [(e, os)])) (cleaned (h ++ [(e, os)])) w'.phase.unswept := by
  rw [abandoned_append, abandoned_singleton, cleaned_append, cleaned_singleton]
  have hsame (he : e.abandoned? = none) (hcleans : (deeds os).filterMap Order.cleans? = [])
      (hphase : w'.phase.unswept = w.phase.unswept) :
      Sweep (abandoned h ++ e.abandoned?.toList)
        (cleaned h ++ ((deeds os).filterMap Order.cleans?).map Prod.snd) w'.phase.unswept := by
    rwa [he, hcleans, hphase, Option.toList_none, List.map_nil, List.append_nil, List.append_nil]
  cases turn_of_step hstep with
  | @cleans id rest _ phase _ deeds =>
    rw [phase] at hs
    obtain ⟨r, hanswers, hjobs⟩ := hs
    have hrest : (if rest.isEmpty then Phase.joining else .sweeping rest).unswept = some rest := by
      cases rest <;> rfl
    rw [deeds, hrest]
    exact ⟨r, (List.append_nil _).trans hanswers, hjobs.trans (List.append_cons ..)⟩
  | @sends id rest _ _ phase _ deeds =>
    refine hsame rfl (deeds ▸ rfl) ?_
    rw [phase]
    cases rest <;> rfl
  | ends _ deeds => exact hsame rfl (deeds ▸ rfl) (by rw [phase_ending])
  | drops => exact hsame rfl rfl rfl
  | cancels => exact hsame rfl rfl rfl
  | moves move deeds =>
    have hcleans := deeds ▸ move.begins_none.2.2
    rcases move.unswept with ⟨he, hphase⟩ | ⟨hstarting, r, he, hphase⟩
    · exact hsame he hcleans hphase
    · rw [hstarting] at hs
      obtain ⟨hnone, hdone⟩ := hs
      rw [hnone, hdone, he, hcleans, hphase]
      exact ⟨r, rfl, rfl⟩

/-- At every point of a run the jobs listed as abandoned have been put back, up to what waits. -/
theorem Run.sweep (hrun : Run c h w) : Sweep (abandoned h) (cleaned h) w.phase.unswept := by
  induction hrun with
  | start cancelled => exact ⟨rfl, rfl⟩
  | step before hstep ih => exact sweep_step ih hstep

theorem Phase.unswept_of_isSweep {p : Phase} (hover : p.isSweep = false) : p.unswept = some [] := by
  cases p <;> first | rfl | cases hover

/-- Behind the sweep all that was listed as abandoned has been put back. -/
theorem Run.sweepOver (hrun : Run c h w) (hover : w.phase.isSweep = false) :
    ∃ r, abandoned h = [r] ∧ jobsOf r = cleaned h := by
  have hs := hrun.sweep
  rw [Phase.unswept_of_isSweep hover] at hs
  obtain ⟨r, hanswers, hjobs⟩ := hs
  exact ⟨r, hanswers, hjobs.trans (List.append_nil _)⟩

/-! ## the rounds -/

/-- Due jobs are called for where the worker goes on and was not cancelled. -/
theorem Move.asks {next : Phase} (hmove : Move c w e next os) (hasks : os.any Order.asks = true) :
    w.cancelled = false ∧ next = .polling ∧ os = [.listDue c.pickSize c.order] ∧
      (w.phase.isSweep = true ∨ w.phase = .resting) := by
  cases hmove with
  | goesOn ready onward =>
    have hphase : w.phase.isSweep = true ∨ w.phase = .resting := by
      rcases ready.phase with phase | phase | phase
      · exact .inl (phase ▸ rfl)
      · exact .inl (phase ▸ rfl)
      · exact .inr phase
    cases onward with
    | round going => exact ⟨going, rfl, rfl, hphase⟩
    | drains => cases hasks
    | stops => cases hasks
  | _ => cases hasks

theorem step_asks (hstep : w.step c e = some (w', os)) (hasks : os.any Order.asks = true) :
    w.cancelled = false ∧ w'.phase = .polling ∧ deeds os = [.listDue c.pickSize c.order] ∧
      e.fate? = none ∧ (w.phase.isSweep = true ∨ w.phase = .resting) := by
  rw [← any_asks_deeds] at hasks
  cases turn_of_step hstep with
  | cleans _ _ deeds => rw [deeds] at hasks; cases hasks
  | sends _ _ deeds => rw [deeds] at hasks; cases hasks
  | ends _ deeds => rw [deeds] at hasks; cases hasks
  | drops => cases hasks
  | cancels => cases hasks
  | moves move deeds =>
    rw [deeds] at hasks
    obtain ⟨hgoing, rfl, hos, hphase⟩ := move.asks hasks
    exact ⟨hgoing, rfl, deeds.trans hos, move.begins_none.1, hphase⟩

/-- How often due jobs are called for. -/
def calls (h : History) : Nat := (orders h).countP Order.asks

theorem calls_append (h h' : History) : calls (h ++ h') = calls h + calls h' := by
  rw [calls, orders_append, List.countP_append]
  rfl

theorem calls_singleton (e : Event) (os : List Order) :
    calls [(e, os)] = (deeds os).countP Order.asks := by
  rw [calls, orders_singleton, deeds, List.countP_filter]
  refine List.countP_congr fun o _ => ?_
  cases o <;> simp [Order.asks, Order.quiet]

theorem calls_eq_zero (hasked : asked h = false) : calls h = 0 := by
  rw [calls, List.countP_eq_zero]
  rw [asked, List.any_eq_false] at hasked
  exact hasked

/-- How many answers the worker waits for, of those to calls for due jobs. -/
def Phase.awaited (p : Phase) : Nat := if p = .polling then 1 else 0

/-- Each call for due jobs has one answer. -/
theorem Move.calls {next : Phase} (hmove : Move c w e next os) :
    w.phase.awaited + os.countP Order.asks = e.due?.toList.length + next.awaited := by
  cases hmove with
  | goesOn ready onward =>
    have hphase : w.phase.awaited = 0 := by
      rcases ready.phase with phase | phase | phase <;> exact phase ▸ rfl
    have he : e.due? = none := by cases ready <;> rfl
    have hos : os.countP Order.asks = next.awaited := by cases onward <;> rfl
    rw [hphase, he, hos]
    rfl
  | sweeps phase => rw [phase]; rfl
  | awaitsSweep phase => rw [phase]; rfl
  | noneDue phase => rw [phase]; rfl
  | dispatches phase => rw [phase]; rfl
  | leavesOut phase => rw [phase]; rfl
  | awaitsUnits phase => rw [phase]; rfl
  | patienceOver phase => rw [phase]; rfl
  | stops phase => rcases phase with phase | phase <;> rw [phase] <;> rfl

theorem step_calls (hstep : w.step c e = some (w', os)) :
    w.phase.awaited + (deeds os).countP Order.asks = e.due?.toList.length + w'.phase.awaited := by
  cases turn_of_step hstep with
  | @cleans id rest _ phase _ deeds => rw [phase, deeds]; cases rest <;> rfl
  | @sends id rest _ _ phase _ deeds => rw [phase, deeds]; cases rest <;> rfl
  | ends _ deeds => rw [deeds, phase_ending]; exact Nat.add_comm ..
  | drops => exact Nat.add_comm ..
  | cancels => exact Nat.add_comm ..
  | moves move deeds => rw [deeds]; exact move.calls

/-- The calls for due jobs and their answers keep step. -/
theorem Steps.calls (hsteps : Steps c w h w') :
    w.phase.awaited + calls h = (due h).length + w'.phase.awaited := by
  induction hsteps with
  | nil => exact Nat.add_comm ..
  | step before hstep ih =>
    have hlast := step_calls hstep
    rw [calls_append, calls_singleton, due_append, due_singleton, List.length_append]
    omega

/-- The jobs listed as due have been sent off in order, up to what waits or was left out. -/
def Standing (cancelled : Bool) (jobs done : List JobId) : Phase → Prop
  | .dispatching left => jobs = done ++ left
  | .resting | .draining | .aborting | .stopped =>
    ∃ left, jobs = done ++ left ∧ (left ≠ [] → cancelled = true)
  | _ => jobs = [] ∧ done = []

/-- What was listed and is not sent off waits, or was left out behind a cancellation. -/
theorem Standing.left {jobs : List JobId} {cancelled : Bool} {p : Phase}
    (hs : Standing cancelled jobs done p) :
    ∃ left, jobs = done ++ left ∧ (left ≠ [] → p = .dispatching left ∨ cancelled = true) := by
  cases p with
  | dispatching left => exact ⟨left, hs, fun _ => .inl rfl⟩
  | resting | draining | aborting | stopped =>
    obtain ⟨left, hjobs, hleft⟩ := hs
    exact ⟨left, hjobs, fun hsome => .inr (hleft hsome)⟩
  | _ =>
    obtain ⟨rfl, rfl⟩ := hs
    exact ⟨[], rfl, fun hsome => absurd rfl hsome⟩

theorem Move.standing {next : Phase} {jobs : List JobId} (hmove : Move c w e next os)
    (hasks : os.any Order.asks = false) (hs : Standing w.cancelled jobs done w.phase) :
    Standing w.cancelled (jobs ++ e.due?.toList.flatMap jobsOf) done next := by
  have hsame (he : e.due? = none) : jobs ++ e.due?.toList.flatMap jobsOf = jobs := by
    rw [he]
    exact List.append_nil _
  cases hmove with
  | goesOn ready onward =>
    rw [hsame (by cases ready <;> rfl)]
    obtain ⟨left, hjobs, hleft⟩ := hs.left
    have hwaits : w.phase ≠ .dispatching left := by
      rcases ready.phase with phase | phase | phase <;> exact phase ▸ nofun
    cases onward with
    | round => cases hasks
    | drains => exact ⟨left, hjobs, fun hsome => (hleft hsome).resolve_left hwaits⟩
    | stops => exact ⟨left, hjobs, fun hsome => (hleft hsome).resolve_left hwaits⟩
  | sweeps phase => rw [phase] at hs; exact (hsame rfl).symm ▸ hs
  | awaitsSweep phase => rw [phase] at hs; exact (hsame rfl).symm ▸ hs
  | noneDue phase none =>
    rw [phase] at hs
    obtain ⟨rfl, rfl⟩ := hs
    exact ⟨[], by simpa [Event.due?] using none, nofun⟩
  | dispatches phase =>
    rw [phase] at hs
    obtain ⟨rfl, rfl⟩ := hs
    exact List.append_nil _
  | leavesOut phase hcancel =>
    rw [phase] at hs
    exact ⟨_, (hsame rfl).trans hs, fun _ => hcancel⟩
  | awaitsUnits phase => rw [phase] at hs; exact (hsame rfl).symm ▸ hs
  | patienceOver phase => rw [phase] at hs; exact (hsame rfl).symm ▸ hs
  | stops phase =>
    rw [hsame rfl]
    rcases phase with phase | phase <;> rw [phase] at hs <;> exact hs

/-- A cancellation takes nothing back. -/
theorem Standing.cancel {jobs : List JobId} {cancelled : Bool} {p : Phase}
    (hs : Standing cancelled jobs done p) : Standing true jobs done p := by
  cases p with
  | resting | draining | aborting | stopped =>
    obtain ⟨left, hjobs, -⟩ := hs
    exact ⟨left, hjobs, fun _ => rfl⟩
  | _ => exact hs

theorem standing_step {jobs : List JobId} (hstep : w.step c e = some (w', os))
    (hasks : os.any Order.asks = false) (hs : Standing w.cancelled jobs done w.phase) :
    Standing w'.cancelled (jobs ++ listed [(e, os)]) (done ++ dispatched [(e, os)]) w'.phase := by
  rw [listed_singleton, dispatched_singleton]
  rw [← any_asks_deeds] at hasks
  have hsame (he : e.due? = none) (hruns : (deeds os).filterMap Order.runs? = []) :
      jobs ++ e.due?.toList.flatMap jobsOf = jobs ∧
        done ++ ((deeds os).filterMap Order.runs?).map Prod.snd = done := by
    rw [he, hruns]
    exact ⟨List.append_nil _, List.append_nil _⟩
  cases turn_of_step hstep with
  | @cleans id rest _ phase _ deeds =>
    obtain ⟨hjobs, hdone⟩ := hsame rfl (deeds ▸ rfl)
    rw [hjobs, hdone]
    rw [phase] at hs
    cases rest <;> exact hs
  | @sends id rest _ _ phase _ deeds =>
    have hruns : ((Worker.deeds os).filterMap Order.runs?).map Prod.snd = [id] := deeds ▸ rfl
    rw [phase] at hs
    rw [hruns]
    have hjobs : jobs ++ Event.dispatch.due?.toList.flatMap jobsOf = done ++ [id] ++ rest :=
      (List.append_nil _).trans (hs.trans (List.append_cons ..))
    cases rest with
    | nil => exact ⟨[], hjobs, nofun⟩
    | cons => exact hjobs
  | ends _ deeds =>
    obtain ⟨hjobs, hdone⟩ := hsame rfl (deeds ▸ rfl)
    rw [hjobs, hdone, phase_ending, cancelled_ending]
    exact hs
  | drops =>
    obtain ⟨hjobs, hdone⟩ := hsame rfl rfl
    rw [hjobs, hdone]
    exact hs
  | cancels =>
    obtain ⟨hjobs, hdone⟩ := hsame rfl rfl
    rw [hjobs, hdone]
    exact hs.cancel
  | moves move deeds =>
    rw [deeds, move.begins_none.2.1]
    rw [deeds] at hasks
    exact (List.append_nil done).symm ▸ move.standing hasks hs

theorem standing_start (w : Worker) : Standing w.cancelled w.phase.waiting [] w.phase := by
  cases w.phase with
  | dispatching => rfl
  | resting | draining | aborting | stopped => exact ⟨[], rfl, nofun⟩
  | _ => exact ⟨rfl, rfl⟩

/-- Where due jobs are not called for again, those that waited and those listed since have been
sent off in order, up to what waits or was left out. -/
theorem Steps.standing (hsteps : Steps c w h w') (hasked : asked h = false) :
    Standing w'.cancelled (w.phase.waiting ++ listed h) (dispatched h) w'.phase := by
  induction hsteps with
  | nil => exact (List.append_nil w.phase.waiting).symm ▸ standing_start w
  | step before hstep ih =>
    rw [asked_append, Bool.or_eq_false_iff, asked_singleton, any_asks_deeds] at hasked
    rw [listed_append, dispatched_append, ← List.append_assoc]
    exact standing_step hstep hasked.2 (ih hasked.1)

/-- Behind the loop: no more rounds. -/
def Phase.isOver : Phase → Bool
  | .draining | .aborting | .stopped => true
  | _ => false

theorem Move.isOver {next : Phase} (hmove : Move c w e next os) (hover : next.isOver = true) :
    w.cancelled = true ∨ w.phase.isOver = true := by
  cases hmove with
  | goesOn _ onward => cases onward with
    | round => cases hover
    | drains cancelled => exact .inl cancelled
    | stops cancelled => exact .inl cancelled
  | awaitsUnits phase => exact .inr (phase ▸ rfl)
  | patienceOver phase => exact .inr (phase ▸ rfl)
  | stops phase => exact .inr (by rcases phase with phase | phase <;> exact phase ▸ rfl)
  | _ => cases hover

/-- The loop ends for a cancellation alone. -/
theorem Run.isOver (hrun : Run c h w) (hover : w.phase.isOver = true) : w.cancelled = true := by
  induction hrun with
  | start => cases hover
  | step before hstep ih =>
    cases turn_of_step hstep with
    | @cleans id rest => cases rest <;> cases hover
    | @sends id rest => cases rest <;> cases hover
    | ends =>
      rw [phase_ending] at hover
      rw [cancelled_ending]
      exact ih hover
    | drops => exact ih hover
    | cancels => rfl
    | moves move => exact (move.isOver hover).elim id ih

theorem step_isSweep (hstep : w.step c e = some (w', os)) (hsweep : w'.phase.isSweep = true) :
    w.phase.isSweep = true := by
  cases turn_of_step hstep with
  | cleans phase => exact phase ▸ rfl
  | @sends id rest => cases rest <;> cases hsweep
  | ends => rwa [phase_ending] at hsweep
  | drops => exact hsweep
  | cancels => exact hsweep
  | moves move =>
    rcases move.isSweep.2 with hsame | ⟨hover, -⟩
    · exact hsame.symm.trans hsweep
    · exact absurd (hover.symm.trans hsweep) nofun

theorem Steps.isSweep (hsteps : Steps c w h w') (hsweep : w'.phase.isSweep = true) :
    w.phase.isSweep = true := by
  induction hsteps with
  | nil => exact hsweep
  | step before hstep ih => exact ih (step_isSweep hstep hsweep)

/-! ## the order of the calls -/

/-- The abandoned jobs come first. -/
structure SweepsFirst (h : History) (w : Worker) : Prop where
  starting : w.phase = .starting → abandoned h = [] ∧ cleaned h = []
  /-- They are listed once, and each of them is put back once, up to those that wait. -/
  cleans : w.phase ≠ .starting → ∃ r left, abandoned h = [r] ∧ jobsOf r = cleaned h ++ left ∧
    (left ≠ [] → w.phase = .sweeping left)
  recovered : w.stats.recovered = tally h (swept h) (some .completed)
  /-- Due jobs are called for when all of that is over. -/
  ended : ∀ as e os bs, h = as ++ (e, os) :: bs → os.any Order.asks = true →
    (∃ r, abandoned (as ++ [(e, os)]) = [r] ∧ jobsOf r = cleaned as) ∧
      (∀ x ∈ swept as, ∃ f, fate as x.1 = some f ∧ f ≠ .aborted) ∧ swept bs = []

/-- Jobs are run as they are listed. -/
structure RunsWhatIsListed (c : WorkerConfig) (h : History) (w : Worker) : Prop where
  none : asked h = false → dispatched h = []
  /-- Behind the last call there is at most one answer, and what it lists is run in its order, up to
  those that wait and, behind a cancellation, those left out. -/
  latest : ∀ as e os bs, h = as ++ (e, os) :: bs → os.any Order.asks = true → asked bs = false →
    (due bs).length ≤ 1 ∧ ∃ left, listed bs = dispatched bs ++ left ∧
      (left ≠ [] → w.phase = .dispatching left ∨ w.cancelled = true)
  /-- Between a call and the next one there is one answer, and what it lists is run, all of it. -/
  earlier : ∀ as e os bs e' os' cs, h = as ++ (e, os) :: (bs ++ (e', os') :: cs) →
    os.any Order.asks = true → asked bs = false → os'.any Order.asks = true →
    ∃ r, due bs = [r] ∧ dispatched bs = jobsOf r
  /-- Behind a call that fails the worker rests as behind any other. -/
  failed : ∀ as e os bs, h = as ++ (.dueListed (.error e), os) :: bs →
    ∃ w', Run c (as ++ [(.dueListed (.error e), os)]) w' ∧ w'.phase = .resting
  rested : w.phase = .resting → w.cancelled = false →
    ∃ w', w.step c .wake = some (w', [.listDue c.pickSize c.order]) ∧ w'.phase = .polling
  ends : w.phase.isOver = true → w.cancelled = true

theorem Run.sweepsFirst (hrun : Run c h w) : SweepsFirst h w := by
  refine ⟨fun hstarting => ?starting, fun hstarted => ?cleans, hrun.accounted.recovered, ?ended⟩
  case starting =>
    have hs := hrun.sweep
    rwa [hstarting] at hs
  case cleans =>
    have hs := hrun.sweep
    cases hphase : w.phase with
    | starting => exact absurd hphase hstarted
    | sweeping left =>
      rw [hphase] at hs
      obtain ⟨r, hanswers, hjobs⟩ := hs
      exact ⟨r, left, hanswers, hjobs, fun _ => rfl⟩
    | _ =>
      rw [hphase] at hs
      obtain ⟨r, hanswers, hjobs⟩ := hs
      exact ⟨r, [], hanswers, hjobs, fun hleft => absurd rfl hleft⟩
  case ended =>
    rintro as e os bs rfl hasks
    obtain ⟨w₁, w₂, hfirst, hstep, hrest⟩ := hrun.split
    obtain ⟨-, hpolling, hdeeds, he, -⟩ := step_asks hstep hasks
    have hbegins := hfirst.step hstep
    have hover : w₂.phase.isSweep = false := hpolling ▸ rfl
    have hswept : swept (as ++ [(e, os)]) = swept as := by
      rw [swept_append, swept_singleton, hdeeds]
      exact List.append_nil _
    have hcleaned : cleaned (as ++ [(e, os)]) = cleaned as := by rw [cleaned, hswept, cleaned]
    obtain ⟨r, hanswers, hjobs⟩ := hbegins.sweepOver hover
    rw [hcleaned] at hjobs
    refine ⟨⟨r, hanswers, hjobs⟩, fun x hx => ?fates, ?none⟩
    case fates =>
      rw [← hswept] at hx
      have hended := hbegins.accounted.sweepOver hover x hx
      have hspared := hbegins.accounted.spared x hx
      rw [fate_of_none he] at hended hspared
      obtain ⟨f, hf⟩ := Option.ne_none_iff_exists'.mp hended
      exact ⟨f, hf, fun haborted => hspared (haborted ▸ hf)⟩
    case none =>
      have hend : w.phase.isSweep = false :=
        Bool.eq_false_iff.mpr fun hsweep => nomatch hover.symm.trans (hrest.isSweep hsweep)
      obtain ⟨r', hanswers', hjobs'⟩ := hrun.sweepOver hend
      rw [List.append_cons, abandoned_append, hanswers] at hanswers'
      rw [List.append_cons, cleaned_append, hcleaned, ← (List.cons.inj hanswers').1, hjobs] at hjobs'
      exact List.map_eq_nil_iff.mp (List.self_eq_append_right.mp hjobs')

theorem Run.runsWhatIsListed (hrun : Run c h w) : RunsWhatIsListed c h w := by
  refine ⟨fun hasked => ?none, ?latest, ?earlier, ?failed, fun hresting hgoing => ?rested,
    hrun.isOver⟩
  case none =>
    obtain ⟨cancelled, hsteps⟩ := run_iff_steps.mp hrun
    have hcalls := hsteps.calls
    have hstart : (Worker.start c cancelled).1.phase.awaited = 0 := rfl
    have hdue : due h = [] := by
      rw [hstart, calls_eq_zero hasked] at hcalls
      exact List.eq_nil_of_length_eq_zero (by omega)
    obtain ⟨left, hjobs, -⟩ := (hsteps.standing hasked).left
    rw [listed, hdue] at hjobs
    exact (List.append_eq_nil_iff.mp hjobs.symm).1
  case latest =>
    rintro as e os bs rfl hasks hasked
    obtain ⟨w₁, w₂, hfirst, hstep, hrest⟩ := hrun.split
    obtain ⟨-, hpolling, -⟩ := step_asks hstep hasks
    have hcalls := hrest.calls
    have hstanding := hrest.standing hasked
    rw [hpolling] at hcalls hstanding
    rw [calls_eq_zero hasked] at hcalls
    have hone : Phase.polling.awaited = 1 := rfl
    exact ⟨by omega, hstanding.left⟩
  case earlier =>
    rintro as e os bs e' os' cs rfl hasks hasked hasks'
    obtain ⟨w₁, w₂, hfirst, hstep, hrest⟩ := hrun.split
    obtain ⟨w₃, w₄, hbetween, hstep', -⟩ := hrest.split_cons
    obtain ⟨-, hpolling, -⟩ := step_asks hstep hasks
    obtain ⟨hgoing, -, -, -, hphase⟩ := step_asks hstep' hasks'
    -- the sweep is over since the first of the calls
    have hresting : w₃.phase = .resting := by
      refine hphase.resolve_left fun hsweep => ?_
      have hsweep := hbetween.isSweep hsweep
      rw [hpolling] at hsweep
      cases hsweep
    have hcalls := hbetween.calls
    have hstanding := hbetween.standing hasked
    rw [hpolling, hresting] at hcalls hstanding
    rw [calls_eq_zero hasked] at hcalls
    obtain ⟨r, hr⟩ := List.length_eq_one_iff.mp hcalls.symm
    obtain ⟨left, hjobs, hleft⟩ := hstanding
    have hnone : left = [] := by
      by_contra hsome
      exact nomatch hgoing.symm.trans (hleft hsome)
    refine ⟨r, hr, ?_⟩
    rw [hnone, List.append_nil, listed, hr, List.flatMap_singleton] at hjobs
    exact hjobs.symm
  case failed =>
    rintro as e os bs rfl
    obtain ⟨w₁, w₂, hfirst, hstep, -⟩ := hrun.split
    refine ⟨w₂, hfirst.step hstep, ?_⟩
    cases turn_of_step hstep with
    | moves move => cases move with
      | goesOn ready => cases ready
      | noneDue => rfl
  case rested =>
    refine ⟨{ w with phase := .polling }, ?_, rfl⟩
    unfold Worker.step Worker.again
    rw [hresting, hgoing]
    rfl

/-- **Sweep first, then exactly what was listed.**  In every run, whatever the listings give, however
the units end and whenever the worker is cancelled, each of the jobs listed as abandoned is put back
by one call, none if the listing fails, and before the first call for due jobs each of these calls
has ended by itself; those that put their job back are counted as recovered.  From then on what a
call for due jobs lists is run by one unit a job, in its order and before the next call; only behind
a cancellation is a rest left out.  A call that fails runs nothing and does not end the loop. -/
theorem sweep_first_then_what_is_listed (hrun : Run c h w) :
    SweepsFirst h w ∧ RunsWhatIsListed c h w := ⟨hrun.sweepsFirst, hrun.runsWhatIsListed⟩

/-- One of two abandoned jobs cannot be put back.  Due jobs cannot be listed at first; then three
are, and the worker is cancelled behind the second. -/
def interrupted : List Event :=
  [.abandonedListed (.ok [⟨1#128⟩, ⟨2#128⟩]), .dispatch, .dispatch, .unitEnded 1 .panicked,
    .unitEnded 0 .ok, .join, .dueListed (.error (.lockBusy ⟨9#128⟩)), .wake,
    .dueListed (.ok [⟨5#128⟩, ⟨3#128⟩, ⟨4#128⟩]), .dispatch, .dispatch, .cancel, .quit]

theorem rest_is_left_out :
    ∃ h w, Run {} h w ∧ SweepsFirst h w ∧ RunsWhatIsListed {} h w ∧
      cleaned h = [⟨1#128⟩, ⟨2#128⟩] ∧ w.stats.recovered = 1 ∧
      listed h = [⟨5#128⟩, ⟨3#128⟩, ⟨4#128⟩] ∧ dispatched h = [⟨5#128⟩, ⟨3#128⟩] := by
  obtain ⟨h, w, hrun, hf⟩ := run_of_happen (c := {}) interrupted
    (fun h w => (cleaned h, w.stats.recovered, listed h, dispatched h))
    (v := ([⟨1#128⟩, ⟨2#128⟩], 1, [⟨5#128⟩, ⟨3#128⟩, ⟨4#128⟩], [⟨5#128⟩, ⟨3#128⟩])) (by decide)
  simp only [Prod.mk.injEq] at hf
  obtain ⟨hsweeps, hruns⟩ := sweep_first_then_what_is_listed hrun
  exact ⟨h, w, hrun, hsweeps, hruns, hf⟩

end Worker

end JobEngine
