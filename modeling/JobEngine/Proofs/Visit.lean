import JobEngine.Proofs.Solo

/-!
# A call to run a job

One worker runs one job, with nothing else going on.  A call that finds the job pending makes one
attempt at it; any other call leaves it alone.

* `goes_claim`, `goes_skip`   the claim, and nothing to claim;
* `Job.settled`, `Job.behind`   the record behind an attempt;
* `goes_recordSuccess`, `goes_recordFailure`   how it is filed;
* `Visit`                     a call, with what it meets;
* `Visit.Attempts`, `Visit.attempts`   all that is to be seen of an attempt, and that a call makes it;
* `Visit.rests`               the calls that leave the job alone.
-/

namespace JobEngine

open Memory Program Run

section
variable {w : Calm} {n : Nat} {rows : Table JobId Job} {k : SessionId} {r v : Job} {ctx : Context}

/-! ## claiming -/

theorem goes_fetch {id : JobId} (hctx : ctx.session = some k) (hr : rows.get? id = some r) :
    (ctx.fetch id).Goes w n (busy rows k {}) [⟨.store (.get k id true), .ok (some r)⟩]
      (.ok (some r)) (busy rows k ⟨[], [id]⟩) := by
  have hload : (ctx.locking.load id).Goes w n (busy rows k {})
      [⟨.store (.get k id true), .ok (some r)⟩] (.ok (some r)) (busy rows k ⟨[], [id]⟩) := by
    unfold Context.load
    rw [show ctx.locking.session = some k from hctx]
    exact goes_check (p := Run.store (.get k id true)) (runs_store (get_busy hr))
  exact runs_bind_done hload rfl

theorem goes_prepare (hctx : ctx.session = some k) (hr : rows.get? r.id = some r)
    (hpending : r.status = .pending) :
    (ctx.prepare r).Goes w n (busy rows k ⟨[], [r.id]⟩)
      [⟨.clock, w.clock n⟩, ⟨.store (.update k r.id
        { status := some .running, updated := some (w.clock n) }), .ok 1⟩]
      (.ok { r with status := .running })
      (busy rows k ⟨[(r.id, { r with status := .running, updated := w.clock n })], [r.id]⟩) := by
  have hrule : r.status.become .running = .ok .running := by rw [hpending]; rfl
  unfold Context.prepare
  refine goes_bind (goes_rule hrule) ?_
  refine goes_bind (goes_update_joined hctx hr (Or.inr rfl) rfl) ?_
  exact goes_rule rfl

theorem goes_claim (hctx : ctx.session = none) (hr : rows.get? r.id = some r)
    (hpending : r.status = .pending) : ∃ hs, Mute hs ∧
    (ctx.transaction fun ctx => ctx.claim r.id).Goes w n (rest rows k) hs
      (.ok (some { r with status := .running }))
      (rest (rows.set r.id { r with status := .running, updated := w.clock (n + 2) }) (k + 1)) := by
  have hclaim : (Context.claim { ctx with session := some k } r.id).Goes w (n + 1)
      (busy rows k {}) [⟨.store (.get k r.id true), .ok (some r)⟩, ⟨.clock, w.clock (n + 2)⟩,
        ⟨.store (.update k r.id
          { status := some .running, updated := some (w.clock (n + 2)) }), .ok 1⟩]
      (.ok (some { r with status := .running })) (busy rows k
        ⟨[(r.id, { r with status := .running, updated := w.clock (n + 2) })], [r.id]⟩) := by
    unfold Context.claim
    refine goes_bind (goes_lift (goes_fetch rfl hr)) ?_
    dsimp only
    rw [if_pos (by rw [hpending]; rfl)]
    exact goes_map some (goes_prepare rfl hr hpending)
  exact ⟨_, ⟨rfl, rfl⟩, goes_transaction hctx hclaim rfl rfl⟩

theorem goes_skip (hctx : ctx.session = none) (hr : rows.get? r.id = some r)
    (hno : r.status.executable = false) : ∃ hs, Mute hs ∧
    (ctx.transaction fun ctx => ctx.claim r.id).Goes w n (rest rows k) hs (.ok none)
      (rest rows (k + 1)) := by
  let line : LogLine := .info "job is not executable, skipping"
    [("job_id", r.id.toJson), ("status", .str r.status.text)]
  have hclaim : (Context.claim { ctx with session := some k } r.id).Goes w (n + 1)
      (busy rows k {}) [⟨.store (.get k r.id true), .ok (some r)⟩, ⟨.log line, ()⟩]
      (.ok none) (busy rows k ⟨[], [r.id]⟩) := by
    unfold Context.claim
    refine goes_bind (goes_lift (goes_fetch rfl hr)) ?_
    dsimp only
    rw [hno]
    exact goes_bind (goes_log line) (goes_pure none)
  exact ⟨_, ⟨rfl, rfl⟩, goes_transaction hctx hclaim rfl rfl⟩

theorem goes_load (hctx : ctx.session = none) (hv : rows.get? v.id = some v) :
    (ctx.load v.id).Goes w n (rest rows k) [⟨.store (.read v.id), .ok (some v)⟩] (.ok (some v))
      (rest rows k) := by
  have hread : (rest rows k).perform (.read v.id) = (some (.ok (some v)), rest rows k) :=
    congrArg (fun a => (some (Except.ok a), rest rows k)) hv
  unfold Context.load
  rw [hctx]
  exact goes_check (p := Run.store (.read v.id)) (runs_store hread)

/-! ## executing -/

def Outcome.attempt : Outcome → UInt32
  | .finished n | .rescheduled n _ | .exhausted n => n

def Outcome.isExhausted : Outcome → Bool
  | .exhausted _ => true
  | _ => false

theorem not_oversteps_nextAttempt {c : Changes} (h : c.trys = some v.nextAttempt) :
    ¬ c.Oversteps v := by
  rintro ⟨m, hm, hlt⟩
  obtain rfl := Option.some.inj (h.symm.trans hm)
  have hlt := UInt32.lt_iff_toNat_lt.mp hlt
  rw [Job.toNat_nextAttempt] at hlt
  omega

/-- The record of a job that is through after `n` attempts, the last with this end. -/
def Job.settled (j : Job) (n : UInt32) : Except ActionError Json → Job
  | .ok a =>
    { j with status := .finished, trys := n, error := none, params := j.params.redact,
             result := some a }
  | .error e =>
    { j with status := .error, trys := n, error := some e.message, params := j.params.redact }

/-- The record behind an attempt, but for the times. -/
def Job.behind (v : Job) : Except ActionError Json → Job
  | .ok a => v.settled v.nextAttempt (.ok a)
  | .error e =>
    if v.isLastChance then v.settled v.nextAttempt (.error e)
    else { v with status := .pending, trys := v.nextAttempt }

/-- Two records that differ in times only. -/
def Job.SameButTimes (a b : Job) : Prop := ∃ runAt updated, b = { a with runAt, updated }

theorem Job.trys_behind (v : Job) (e : Except ActionError Json) :
    (v.behind e).trys = v.nextAttempt := by
  cases e with
  | ok => rfl
  | error =>
    show (if v.isLastChance then _ else _ : Job).trys = _
    split <;> rfl

theorem Job.SameButTimes.trans {a b c : Job} (hab : a.SameButTimes b) (hbc : b.SameButTimes c) :
    a.SameButTimes c := by
  obtain ⟨_, _, rfl⟩ := hab
  obtain ⟨_, _, rfl⟩ := hbc
  exact ⟨_, _, rfl⟩

/-- Neither the times of a record nor its status tell what an attempt makes of it. -/
theorem Job.SameButTimes.behind {a b : Job} {s : Status}
    (h : Job.SameButTimes { a with status := s } b) (e : Except ActionError Json) :
    (a.behind e).SameButTimes (b.behind e) := by
  obtain ⟨runAt, updated, rfl⟩ := h
  cases e with
  | ok => exact ⟨_, _, rfl⟩
  | error =>
    show Job.SameButTimes (if a.isLastChance then _ else _) (if a.isLastChance then _ else _)
    split <;> exact ⟨runAt, updated, rfl⟩

/-- The outcome is filed: the status by rule, and with it what else is kept. -/
theorem goes_settle {s : Status} {f : Status → Changes} {l : LogLine} {o : Outcome}
    (hctx : ctx.session = none) (hv : rows.get? v.id = some v)
    (hrule : v.status.become s = .ok s) (htrys : (f s).trys = some v.nextAttempt) :
    Run.Goes w n (rest rows k)
      (do let status ← Run.rule (v.status.become s)
          ctx.update v.id (f status)
          Run.log l
          pure o)
      (changing k v.id (f s) (w.clock n) ++ [⟨.log l, ()⟩]) (.ok o)
      (rest (rows.set v.id { (f s).overwrite v with updated := w.clock n }) (k + 1)) := by
  have hap : Changes.apply { f s with updated := some (w.clock n) } v
      = .ok { (f s).overwrite v with updated := w.clock n } :=
    Changes.apply_eq_ok_iff.mpr ⟨not_oversteps_nextAttempt htrys, rfl⟩
  change Run.Goes w n _ _ ([] ++ (changing k v.id (f s) (w.clock n) ++ _)) _ _
  refine goes_bind (goes_rule hrule) ?_
  refine goes_bind (goes_update hctx hv hap) ?_
  exact goes_bind (goes_log l) (goes_pure o)

theorem goes_recordSuccess {a : Json} (hctx : ctx.session = none) (hv : rows.get? v.id = some v)
    (hrun : v.status = .running) : ∃ hs j,
    (ctx.recordSuccess v a).Goes w n (rest rows k) hs (.ok (.finished v.nextAttempt))
      (rest (rows.set v.id j) (k + 1)) ∧
    published hs = [.ofSuccess v a] ∧ invoked hs = [] ∧ (v.behind (.ok a)).SameButTimes j := by
  have hrule : v.status.become .finished = .ok .finished := by rw [hrun]; rfl
  exact ⟨_, _, goes_bind (goes_publish _) (goes_settle hctx hv hrule rfl), rfl, rfl, _, _, rfl⟩

/-- What is done before a failure is filed. -/
theorem goes_noted {m m' : Memory} {hs : List Heard} {r : Except JobError Outcome} {l : LogLine}
    {e : JobEvent} {f : Instant → Run Outcome} {x : Run Outcome}
    (hf : f (w.clock (n + 1 + 1)) = x) (h : x.Goes w (n + 1 + 1 + 1) m hs r m') :
    Run.Goes w n m (do Run.log l; Run.publish e; let now ← Run.clock; f now)
      (⟨.log l, ()⟩ :: ⟨.publish e, .ok ()⟩ :: ⟨.clock, w.clock (n + 1 + 1)⟩ :: hs) r m' := by
  subst hf
  have h := goes_bind (f := f) (goes_clock (w := w) (n := n + 1 + 1) (m := m)) h
  exact goes_bind (goes_log l) (goes_bind (goes_publish e) h)

theorem goes_recordFailure {e : ActionError} {d : Decision} (hctx : ctx.session = none)
    (hv : rows.get? v.id = some v) (hrun : v.status = .running)
    (hd : v.onFailure (w.clock (n + 1 + 1)) = some d) : ∃ hs j o,
    (ctx.recordFailure v e.message).Goes w n (rest rows k) hs (.ok o)
      (rest (rows.set v.id j) (k + 1)) ∧
    published hs = [.ofFailure v e.message] ∧ invoked hs = [] ∧
    (v.behind (.error e)).SameButTimes j ∧ o.attempt = v.nextAttempt ∧
    (o.isExhausted ↔ v.isLastChance) := by
  cases d with
  | exhausted m =>
    obtain ⟨rfl, hlast⟩ := Job.of_onFailure_exhausted hd
    have hlast : v.isLastChance = true := decide_eq_true hlast
    have hrule : v.status.become .error = .ok .error := by rw [hrun]; rfl
    let f (s : Status) : Changes :=
      { status := some s, trys := some v.nextAttempt, error := some (some e.message),
        params := some v.params.redact }
    have hsame : (v.behind (.error e)).SameButTimes { (f .error).overwrite v with
        updated := w.clock (n + 1 + 1 + 1) } := by
      rw [show v.behind (.error e) = (f .error).overwrite v from if_pos hlast]
      exact ⟨_, _, rfl⟩
    have hfile := goes_settle (w := w) (n := n + 1 + 1 + 1) (k := k) (f := f)
      (o := .exhausted v.nextAttempt) (l := .warn "job out of attempts"
        [("job_id", v.id.toJson), ("attempt", .ofWord v.nextAttempt)]) hctx hv hrule rfl
    refine ⟨_, _, _, goes_noted (by rw [hd]) hfile, rfl, rfl, hsame, rfl, fun _ => hlast,
      fun _ => rfl⟩
  | retry m t =>
    obtain rfl : m = v.nextAttempt := Job.attempt_of_onFailure hd
    have hlast : v.isLastChance = false := by
      have hleft := (Job.of_onFailure_retry hd).1
      exact decide_eq_false (by omega)
    have hrule : v.status.become .pending = .ok .pending := by rw [hrun]; rfl
    let f (s : Status) : Changes :=
      { status := some s, trys := some v.nextAttempt, runAt := some t }
    have hsame : (v.behind (.error e)).SameButTimes { (f .pending).overwrite v with
        updated := w.clock (n + 1 + 1 + 1) } := by
      rw [show v.behind (.error e) = { v with status := .pending, trys := v.nextAttempt } from
        if_neg (by rw [hlast]; simp)]
      exact ⟨_, _, rfl⟩
    have hfile := goes_settle (w := w) (n := n + 1 + 1 + 1) (k := k) (f := f)
      (o := .rescheduled v.nextAttempt t)
      (l := .info "job rescheduled"
        [("job_id", v.id.toJson), ("attempt", .ofWord v.nextAttempt), ("run_at", .str t.display)])
      hctx hv hrule rfl
    refine ⟨_, _, _, goes_noted (by rw [hd]) hfile, rfl, rfl, hsame, rfl, fun h => ?_,
      fun h => ?_⟩
    · simp [Outcome.isExhausted] at h
    · simp [hlast] at h

/-- The event at the end of an attempt. -/
def JobEvent.ofEnd (v : Job) : Except ActionError Json → JobEvent
  | .ok a => .ofSuccess v a
  | .error e => .ofFailure v e.message

/-- However the action ended. -/
theorem goes_record {ended : Except ActionError Json} (hctx : ctx.session = none)
    (hv : rows.get? v.id = some v) (hrun : v.status = .running)
    (hfits : ∀ e, ended = .error e → (v.onFailure (w.clock (n + 1 + 1))).isSome) : ∃ hs j o,
    Run.Goes w n (rest rows k)
      (match ended with
      | .ok a => ctx.recordSuccess v a
      | .error e => ctx.recordFailure v e.message) hs (.ok o) (rest (rows.set v.id j) (k + 1)) ∧
    published hs = [.ofEnd v ended] ∧ invoked hs = [] ∧ (v.behind ended).SameButTimes j ∧
    o.attempt = v.nextAttempt ∧ (o.isExhausted ↔ (∃ e, ended = .error e) ∧ v.isLastChance) := by
  cases ended with
  | ok a =>
    obtain ⟨hs, j, hrecord, hpublished, hinvoked, hj⟩ := goes_recordSuccess hctx hv hrun
    refine ⟨hs, j, _, hrecord, hpublished, hinvoked, hj, rfl, fun h => ?_, fun h => ?_⟩
    · simp [Outcome.isExhausted] at h
    · simp at h
  | error e =>
    obtain ⟨d, hd⟩ := Option.isSome_iff_exists.mp (hfits e rfl)
    obtain ⟨hs, j, o, hrecord, hpublished, hinvoked, hj, hattempt, hlast⟩ :=
      goes_recordFailure (e := e) hctx hv hrun hd
    exact ⟨hs, j, o, hrecord, hpublished, hinvoked, hj, hattempt,
      fun h => ⟨⟨e, rfl⟩, hlast.mp h⟩, fun h => hlast.mpr h.2⟩

/-! ## one call -/

/-- A call of a worker to run a job. -/
structure Visit where
  controller : Controller
  tag : String
  deadline : Nat
  calm : Calm

namespace Visit

/-- How a run of an action of this kind ends. -/
def ending (x : Visit) (kind : String) : Except ActionError Json :=
  if x.controller.kinds.contains kind then
    match x.calm.action with
    | some r => r
    | none => .error (.timedOut x.deadline)
  else .error (.unsupported kind)

/-- The runs of actions for a job: one, or none if its kind is not known. -/
def invocations (x : Visit) (v : Job) : List Invocation :=
  if x.controller.kinds.contains v.action then
    [{ kind := v.action, params := v.params, job := v.id, project := v.project,
       attempt := v.nextAttempt, isLastChance := v.isLastChance, deadline := x.deadline }]
  else []

variable {x : Visit}

theorem goes_invoke (x : Visit) (v : Job) (n : Nat) (m : Memory) : ∃ hs,
    (x.controller.invoke v x.deadline).Runs x.calm n m hs (x.ending v.action) m ∧
    published hs = [] ∧ invoked hs = x.invocations v := by
  unfold Controller.invoke ending invocations
  split
  · let i : Invocation :=
      { kind := v.action, params := v.params, job := v.id, project := v.project,
        attempt := v.nextAttempt, isLastChance := v.isLastChance, deadline := x.deadline }
    refine ⟨[⟨.invoke i, x.calm.action⟩], runs_call rfl ?_, rfl, rfl⟩
    cases x.calm.action <;> exact runs_done _
  · exact ⟨[], runs_done _, rfl, rfl⟩

theorem goes_execute (hctx : ctx.session = none) (hv : rows.get? v.id = some v)
    (hrun : v.status = .running)
    (hfits : ∀ e, x.ending v.action = .error e → ∀ i, (v.onFailure (x.calm.clock i)).isSome) :
    ∃ hs j o,
    (x.controller.execute ctx v x.deadline).Goes x.calm n (rest rows k) hs (.ok o)
      (rest (rows.set v.id j) (k + 1)) ∧
    published hs = [.ofStart v, .ofEnd v (x.ending v.action)] ∧ invoked hs = x.invocations v ∧
    (v.behind (x.ending v.action)).SameButTimes j ∧ o.attempt = v.nextAttempt ∧
    (o.isExhausted ↔ (∃ e, x.ending v.action = .error e) ∧ v.isLastChance) := by
  have hrule : v.status.become .finished = .ok .finished := by rw [hrun]; rfl
  obtain ⟨hs, hinvoke, hpub, hinv⟩ := x.goes_invoke v (n + 1 + 1) (rest rows k)
  obtain ⟨hs', j, o, hrecord, hpub', hinv', hj, hattempt, hexhausted⟩ :=
    goes_record (n := n + 1 + 1 + hs.length) (k := k) hctx hv hrun fun e he => hfits e he _
  let line : LogLine := .info "executing job"
    [("job_id", v.id.toJson), ("action", .str v.action), ("attempt", .ofWord v.nextAttempt),
      ("is_last_chance", .bool v.isLastChance), ("params", .str v.params.redact.compress)]
  have hexecute : (x.controller.execute ctx v x.deadline).Goes x.calm n (rest rows k)
      (⟨.log line, ()⟩ :: ⟨.publish (.ofStart v), .ok ()⟩ :: (hs ++ hs')) (.ok o)
      (rest (rows.set v.id j) (k + 1)) := by
    unfold Controller.execute
    refine goes_bind (goes_rule hrule) ?_
    refine goes_bind (goes_log line) ?_
    refine goes_bind (goes_publish _) ?_
    exact goes_bind (goes_lift hinvoke) hrecord
  refine ⟨_, j, o, hexecute, ?_, ?_, hj, hattempt, hexhausted⟩
  · show JobEvent.ofStart v :: published (hs ++ hs') = _
    rw [published_append, hpub, hpub', List.nil_append]
  · show invoked (hs ++ hs') = _
    rw [invoked_append, hinv, hinv', List.append_nil]

def unit (x : Visit) (id : JobId) : Program Engine (Except JobError Unit) :=
  (x.controller.lifecycle x.tag).run id x.deadline

/-- The call makes attempt `n` at job `v`: what is published and invoked, how it ends, and what is
kept of it. -/
structure Attempts (x : Visit) (v : Job) (n : UInt32) (last : Bool) (hs : List Heard)
    (m' : Memory) : Prop where
  events : published hs = [.started v n last, match x.ending v.action with
    | .ok a => .finished v n a
    | .error e => .failed v n e.message last]
  invocations : invoked hs = if x.controller.kinds.contains v.action then
      [{ kind := v.action, params := v.params, job := v.id, project := v.project,
         attempt := n, isLastChance := last, deadline := x.deadline }]
    else []
  outcome : ∃ m₁ hs₁ hs₂ o, hs = hs₁ ++ hs₂ ∧ Mute hs₁ ∧
    (x.controller.execute (.forJob x.tag v.id) v x.deadline).Goes x.calm hs₁.length m₁ hs₂ (.ok o)
      m' ∧ o.attempt = n ∧ (o.isExhausted ↔ (∃ e, x.ending v.action = .error e) ∧ last)
  stored : ∃ r, m'.rows.get? v.id = some r ∧ r.trys = n

/-- A call that finds the job pending makes the next attempt at it. -/
theorem attempts (x : Visit) (hr : rows.get? r.id = some r) (hpending : r.status = .pending)
    (hfits : ∀ e, x.ending r.action = .error e → ∀ i, (r.onFailure (x.calm.clock i)).isSome) :
    ∃ hs j rows' t, (x.unit r.id).Runs x.calm 0 (rest rows k) hs (.ok ()) (rest rows' (k + 2)) ∧
      x.Attempts { r with status := .running, updated := t } r.nextAttempt r.isLastChance hs
        (rest rows' (k + 2)) ∧
      (r.behind (x.ending r.action)).SameButTimes j ∧ rows'.get? r.id = some j ∧
      ∀ o, o ≠ r.id → rows'.get? o = rows.get? o := by
  have hctx : (Context.forJob x.tag r.id).session = none := rfl
  obtain ⟨hs₁, hmute, hclaim⟩ := goes_claim (w := x.calm) (n := 0) (k := k) hctx hr hpending
  generalize x.calm.clock (0 + 2) = t at hclaim
  let v : Job := { r with status := .running, updated := t }
  have hv : Table.get? v.id (rows.set r.id v) = some v := (Table.get?_set ..).trans (if_pos rfl)
  let read : Heard := ⟨.store (.read r.id), .ok (some v)⟩
  have hload := goes_load (w := x.calm) (n := hs₁.length) (k := k + 1) hctx hv
  obtain ⟨hs₂, j, o, hexecute, hpub, hinv, hj, hattempt, hexhausted⟩ :=
    goes_execute (x := x) (n := hs₁.length + 1) (k := k + 1) hctx hv rfl hfits
  have hunit : (x.controller.runUnit (.forJob x.tag r.id) r.id x.deadline).Goes x.calm 0
      (rest rows k) (hs₁ ++ ([read] ++ (hs₂ ++ []))) (.ok ())
      (rest ((rows.set r.id v).set r.id j) (k + 2)) := by
    unfold Controller.runUnit
    refine goes_bind hclaim ?_
    rw [Nat.zero_add]
    exact goes_bind hload (goes_bind hexecute (goes_pure ()))
  -- up to the execution nothing is published or invoked
  have hmute' : Mute (hs₁ ++ [read]) := by
    unfold Mute
    rw [published_append, invoked_append, hmute.1, hmute.2]
    exact ⟨rfl, rfl⟩
  have hj' : Table.get? r.id ((rows.set r.id v).set r.id j) = some j :=
    (Table.get?_set ..).trans (if_pos rfl)
  have hclaimed : Job.SameButTimes { r with status := .running } v := ⟨_, _, rfl⟩
  rw [List.append_nil, ← List.append_assoc] at hunit
  refine ⟨_, j, _, t, goes_footprint hunit, ⟨?events, ?invocations,
    ⟨rest (rows.set r.id v) (k + 1), _, hs₂, o, rfl, hmute', ?execute, hattempt, hexhausted⟩,
    j, hj', ?trys⟩, (hclaimed.behind _).trans hj, hj', fun o ho => ?others⟩
  case events =>
    rw [published_append, hmute'.1, hpub]
    show [JobEvent.started v v.nextAttempt v.isLastChance, .ofEnd v (x.ending v.action)] = _
    cases x.ending v.action <;> rfl
  case invocations =>
    rw [invoked_append, hmute'.2, hinv]
    rfl
  case execute =>
    rw [List.length_append]
    exact hexecute
  case trys =>
    obtain ⟨_, _, rfl⟩ := hj
    exact Job.trys_behind v _
  case others =>
    rw [Table.get?_set, if_neg ho.symm, Table.get?_set, if_neg ho.symm]

/-- A call that finds the job through leaves it alone. -/
theorem rests (x : Visit) (hr : rows.get? r.id = some r) (hno : r.status.executable = false) :
    ∃ hs, Mute hs ∧ (x.unit r.id).Runs x.calm 0 (rest rows k) hs (.ok ()) (rest rows (k + 1)) := by
  have hctx : (Context.forJob x.tag r.id).session = none := rfl
  obtain ⟨hs, hmute, hskip⟩ := goes_skip (w := x.calm) (n := 0) (k := k) hctx hr hno
  exact ⟨hs, hmute, goes_footprint (runs_bind_done hskip rfl)⟩

end Visit

end

end JobEngine
