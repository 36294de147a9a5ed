import JobEngine.Proofs.Conduct
import JobEngine.Proofs.Pool.Basic

/-!
# The stages of a unit

    run:     idle - opened - fetched - marked - claimed - loaded (- invoked) - recording - recorded
    clean:   idle - opened - fetched - marked
    poll:    idle - timed - listed

A unit that runs a job marks it under its lock, loads it again once the mark is committed, and
records in a session of its own how the attempt ended.

* `Task.Marks`, `Settles`   the changes that a unit may ask for;
* `Job.invocation`, `Invocation.ending`   a run of the action, and how it ends;
* `May`, `hear`             the questions of each stage, and what the answers lead to;
* `May.moves`               all the ways there are from stage to stage;
* `Task.keeps`              every unit keeps to its stages.
-/

namespace JobEngine

/-! ## changes -/

/-- The job of a unit that claims or puts back. -/
def Task.job : Task → Option JobId
  | .run _ _ id _ => some id
  | .clean _ id => some id
  | _ => none

def Task.runs : Task → Option JobId
  | .run _ _ id _ => some id
  | _ => none

/-- The task puts a job back. -/
def Task.cleans : Task → Bool
  | .clean _ _ => true
  | _ => false

/-- A unit with this task can run the action. -/
def Task.knows (action : String) : Task → Bool
  | .run c _ _ _ => c.kinds.contains action
  | _ => true

theorem Task.job_of_runs {t : Task} {id : JobId} (h : t.runs = some id) : t.job = some id := by
  cases t with
  | run c tag id' deadline => exact h
  | _ => simp [Task.runs] at h

theorem Task.runs_or_cleans {t : Task} {id : JobId} (h : t.job = some id) :
    t.runs = some id ∨ t.cleans := by
  cases t with
  | run c tag id' deadline => exact Or.inl h
  | clean tag id' => exact Or.inr rfl
  | _ => simp [Task.job] at h

theorem Task.runs_of_job {t : Task} {id : JobId} (h : t.job = some id) (ht : t.runs.isSome) :
    t.runs = some id := by
  cases t with
  | run c tag id' deadline => exact h
  | _ => exact absurd ht Bool.false_ne_true

/-- The change that a unit makes of the record that it fetched. -/
inductive Task.Marks : Task → Job → Changes → Prop
  | claim {c : Controller} {tag : String} {id : JobId} {deadline : Nat} {j : Job} (t : Instant) :
    j.status = .pending →
    Marks (.run c tag id deadline) j { status := some .running, updated := some t }
  | reset {tag : String} {id : JobId} {j : Job} (t : Instant) :
    j.status = .running → Marks (.clean tag id) j { status := some .pending, updated := some t }

theorem Task.Marks.of_runs {t : Task} {j : Job} {c : Changes} (h : t.Marks j c)
    (ht : t.runs.isSome) :
    j.status = .pending ∧ ∃ stamp, c = { status := some .running, updated := some stamp } := by
  cases h with
  | claim stamp hj => exact ⟨hj, stamp, rfl⟩
  | reset => exact absurd ht Bool.false_ne_true

theorem Task.Marks.of_cleans {t : Task} {j : Job} {c : Changes} (h : t.Marks j c)
    (ht : t.cleans) :
    j.status = .running ∧ ∃ stamp, c = { status := some .pending, updated := some stamp } := by
  cases h with
  | claim => exact absurd ht Bool.false_ne_true
  | reset stamp hj => exact ⟨hj, stamp, rfl⟩

/-- What the action of a job is told. -/
def Job.invocation (v : Job) (deadline : Nat) : Invocation where
  kind := v.action
  params := v.params
  job := v.id
  project := v.project
  attempt := v.nextAttempt
  isLastChance := v.isLastChance
  deadline

/-- How the run of an action ended; one that overruns its deadline has failed. -/
def Invocation.ending (i : Invocation) : Option (Except ActionError Json) → Except ActionError Json
  | some r => r
  | none => .error (.timedOut i.deadline)

/-- The change that records how an attempt at a job ended. -/
inductive Settles (v : Job) : Except ActionError Json → Changes → Prop
  | finished (result : Json) (t : Instant) :
    Settles v (.ok result)
      { status := some .finished, trys := some v.nextAttempt, error := some none,
        params := some v.params.redact, result := some (some result), updated := some t }
  | exhausted {now : Instant} {n : UInt32} (e : ActionError) (t : Instant) :
    v.onFailure now = some (.exhausted n) →
    Settles v (.error e)
      { status := some .error, trys := some n, error := some (some e.message),
        params := some v.params.redact, updated := some t }
  | retry {now runAt : Instant} {n : UInt32} (e : ActionError) (t : Instant) :
    v.onFailure now = some (.retry n runAt) →
    Settles v (.error e)
      { status := some .pending, trys := some n, runAt := some runAt, updated := some t }

section
variable {v : Job} {how : Except ActionError Json} {c : Changes}

theorem Settles.trys (h : Settles v how c) : c.trys = some v.nextAttempt := by
  cases h with
  | finished => rfl
  | exhausted e t h => exact congrArg some (Job.attempt_of_onFailure h)
  | retry e t h => exact congrArg some (Job.attempt_of_onFailure h)

/-- A job that is to be tried again has an attempt left, and is not due earlier than it was. -/
theorem Settles.retry_of_pending (h : Settles v how c) (hc : c.status = some .pending) :
    v.trys.toNat + 1 < v.tryMax.toNat ∧ ∃ t, c.runAt = some t ∧ v.runAt ≤ t := by
  cases h with
  | finished => simp at hc
  | exhausted => simp at hc
  | retry e t h =>
    obtain ⟨hleft, hdue⟩ := Job.of_onFailure_retry h
    exact ⟨hleft, _, rfl, hdue⟩

theorem Settles.leadsTo (h : Settles v how c) :
    ∃ new, c.status = some new ∧ Status.running.leadsTo new := by
  cases h with
  | finished => exact ⟨_, rfl, rfl⟩
  | exhausted => exact ⟨_, rfl, rfl⟩
  | retry => exact ⟨_, rfl, rfl⟩

end

/-! ## stages -/

inductive Stage
  | idle
  /-- A poll knows the time. -/
  | timed (now : Instant)
  | listed (now : Instant) (page : Page)
  /-- A session is open, and nothing is staged in it. -/
  | opened (s : SessionId)
  | fetched (s : SessionId) (j : Job)
  /-- The change of the fetched record is staged. -/
  | marked (s : SessionId) (j : Job) (c : Changes)
  /-- The mark of a run is committed. -/
  | claimed
  /-- The claimed job was read again. -/
  | loaded (v : Job)
  | invoked (v : Job) (how : Except ActionError Json)
  | recording (v : Job) (how : Except ActionError Json) (s : SessionId)
  /-- How the attempt ended is staged. -/
  | recorded (v : Job) (how : Except ActionError Json) (s : SessionId) (c : Changes)
  | ended

namespace Stage

def session : Stage → Option SessionId
  | opened s | fetched s _ | marked s _ _ | recording _ _ s | recorded _ _ s _ => some s
  | _ => none

/-- The record that the unit executes. -/
def view : Stage → Option Job
  | loaded v | invoked v _ | recording v _ _ | recorded v _ _ _ => some v
  | _ => none

theorem ne_idle_of_view {st : Stage} {v : Job} (h : st.view = some v) : st ≠ idle := by
  rintro rfl
  simp [view] at h

/-- Behind a committed claim, and not over. -/
def Executing : Stage → Prop
  | claimed => True
  | st => st.view.isSome

end Stage

/-- The listing of a poll. -/
def Query.due (now : Instant) (limit : UInt64) (order : SortOrder) : Query :=
  { filter := { statuses := some [.pending], dueBy := some now }, order, limit := some limit }

/-- What a unit may ask at a stage. -/
inductive May : Task → Stage → EngineCall → Prop
  | log (t : Task) (st : Stage) (l : LogLine) : May t st (.log l)
  | enter {t : Task} {id : JobId} : t.job = some id → May t .idle (.store .begin)
  | fetch {t : Task} {id : JobId} {s : SessionId} :
    t.job = some id → May t (.opened s) (.store (.get s id true))
  | stamp {t : Task} {s : SessionId} {j : Job} : May t (.fetched s j) .clock
  | mark {t : Task} {s : SessionId} {j : Job} {c : Changes} :
    t.Marks j c → May t (.fetched s j) (.store (.update s j.id c))
  | commit {t : Task} {st : Stage} {s : SessionId} :
    st.session = some s → May t st (.store (.commit s))
  | rollback {t : Task} {st : Stage} {s : SessionId} :
    st.session = some s → May t st (.store (.rollback s))
  | load {c : Controller} {tag : String} {id : JobId} {deadline : Nat} :
    May (.run c tag id deadline) .claimed (.store (.read id))
  | publish {t : Task} {st : Stage} {v : Job} {e : JobEvent} :
    st.view = some v → May t st (.publish e)
  | time {t : Task} {st : Stage} {v : Job} : st.view = some v → May t st .clock
  | invoke {c : Controller} {tag : String} {id : JobId} {deadline : Nat} {v : Job} :
    v.status = .running → c.kinds.contains v.action →
    May (.run c tag id deadline) (.loaded v) (.invoke (v.invocation deadline))
  | reenter {t : Task} {v : Job} {how : Except ActionError Json} :
    May t (.invoked v how) (.store .begin)
  | giveUp {c : Controller} {tag : String} {id : JobId} {deadline : Nat} {v : Job} :
    c.kinds.contains v.action = false → May (.run c tag id deadline) (.loaded v) (.store .begin)
  | settle {t : Task} {v : Job} {how : Except ActionError Json} {s : SessionId} {c : Changes} :
    Settles v how c → May t (.recording v how s) (.store (.update s v.id c))
  | name {c : Controller} {request : NewJob} : May (.create c request) .idle .freshId
  | date {c : Controller} {request : NewJob} : May (.create c request) .idle .clock
  | file {c : Controller} {request : NewJob} {id : JobId} {now : Instant} {j : Job} :
    request.toJob id now = .ok j → May (.create c request) .idle (.store (.insert j))
  | watch {limit : UInt64} {order : SortOrder} : May (.poll limit order) .idle .clock
  | due {limit : UInt64} {order : SortOrder} {now : Instant} :
    May (.poll limit order) (.timed now) (.store (.list (.due now limit order)))
  | abandoned {q : Query} : May .sweep .idle (.store (.list q))

namespace Stage

def begun (s : SessionId) : Stage → Stage
  | idle => opened s
  | loaded v => recording v (.error (.unsupported v.action)) s
  | invoked v how => recording v how s
  | st => st

def changed (c : Changes) : Stage → Stage
  | fetched s j => marked s j c
  | recording v how s => recorded v how s c
  | st => st

def committed : Task → Stage → Stage
  | .run _ _ _ _, marked _ _ _ => claimed
  | _, _ => ended

theorem committed_cases (t : Task) (st : Stage) :
    (st.committed t = claimed ∧ t.runs.isSome ∧ ∃ s j c, st = marked s j c) ∨
      st.committed t = ended := by
  cases t <;> cases st <;>
    first | exact Or.inr rfl | exact Or.inl ⟨rfl, rfl, _, _, _, rfl⟩

/-- The time was told. -/
def told (now : Instant) : Task → Stage → Stage
  | .poll _ _, idle => timed now
  | _, st => st

theorem told_of_ne_idle {t : Task} {st : Stage} (h : st ≠ idle) (now : Instant) :
    st.told now t = st := by
  cases t <;> cases st <;> first | rfl | exact absurd rfl h

def answered (how : Except ActionError Json) : Stage → Stage
  | loaded v => invoked v how
  | st => st

def shown (page : Page) : Stage → Stage
  | timed now => listed now page
  | _ => ended

end Stage

/-- The stage behind an answer. -/
def hear (t : Task) (st : Stage) : (c : EngineCall) → c.Answer → Stage
  | .store .begin, .ok s => st.begun s
  | .store .begin, .error _ => .ended
  | .store (.get s _ _), .ok (some j) => .fetched s j
  | .store (.update _ _ c), .ok (_ + 1) => st.changed c
  | .store (.commit _), .ok () => st.committed t
  | .store (.commit _), .error _ => .ended
  | .store (.rollback _), _ => .ended
  | .store (.read _), .ok (some v) => .loaded v
  | .store (.read _), _ => .ended
  | .store (.list _), .ok page => st.shown page
  | .store (.list _), .error _ => .ended
  | .store (.insert _), _ => .ended
  | .clock, now => st.told now t
  | .invoke i, r => st.answered (i.ending r)
  | _, _ => st

theorem hear_clock {t : Task} {st : Stage} (h : st ≠ .idle) (now : EngineCall.clock.Answer) :
    hear t st .clock now = st := Stage.told_of_ne_idle h now

/-- The moves of a unit.  Every other answer leaves it where it is, or ends it. -/
inductive Moves (t : Task) : Stage → Heard → Stage → Prop
  | stays {st : Stage} {h : Heard} :
    (∀ i, h.1 ≠ .invoke i) → (∀ s, h.1 ≠ .store (.commit s)) → Moves t st h st
  | ends {st : Stage} {h : Heard} : Moves t st h .ended
  | isTold {now : Instant} : Moves t .idle ⟨.clock, now⟩ (.timed now)
  | lists {limit : UInt64} {order : SortOrder} {now : Instant} {page : Page} :
    t = .poll limit order →
    Moves t (.timed now) ⟨.store (.list (.due now limit order)), .ok page⟩ (.listed now page)
  | enters {s : SessionId} : Moves t .idle ⟨.store .begin, .ok s⟩ (.opened s)
  | fetches {id : JobId} {s : SessionId} {j : Job} : t.job = some id →
    Moves t (.opened s) ⟨.store (.get s id true), .ok (some j)⟩ (.fetched s j)
  | marks {s : SessionId} {j : Job} {c : Changes} {n : Nat} :
    Moves t (.fetched s j) ⟨.store (.update s j.id c), .ok (n + 1)⟩ (.marked s j c)
  | claims {s : SessionId} {j : Job} {c : Changes} :
    Moves t (.marked s j c) ⟨.store (.commit s), .ok ()⟩ .claimed
  | loads {id : JobId} {v : Job} : t.runs = some id →
    Moves t .claimed ⟨.store (.read id), .ok (some v)⟩ (.loaded v)
  | invokes {c : Controller} {tag : String} {id : JobId} {deadline : Nat} {v : Job}
    {r : Option (Except ActionError Json)} : t = .run c tag id deadline →
    Moves t (.loaded v) ⟨.invoke (v.invocation deadline), r⟩
      (.invoked v ((v.invocation deadline).ending r))
  | reenters {v : Job} {how : Except ActionError Json} {s : SessionId} :
    Moves t (.invoked v how) ⟨.store .begin, .ok s⟩ (.recording v how s)
  | givesUp {v : Job} {s : SessionId} : t.knows v.action = false →
    Moves t (.loaded v) ⟨.store .begin, .ok s⟩ (.recording v (.error (.unsupported v.action)) s)
  | settles {v : Job} {how : Except ActionError Json} {s : SessionId} {c : Changes} {n : Nat} :
    Moves t (.recording v how s) ⟨.store (.update s v.id c), .ok (n + 1)⟩
      (.recorded v how s c)

/-- What a unit may ask moves it as stated, whatever the answer. -/
theorem May.moves {t : Task} {st : Stage} {c : EngineCall} (hmay : May t st c) (a : c.Answer) :
    Moves t st ⟨c, a⟩ (hear t st c a) := by
  cases hmay with
  | log => exact .stays (by simp) (by simp)
  | enter =>
    match a with
    | .ok s => exact .enters
    | .error _ => exact .ends
  | fetch hjob =>
    match a with
    | .ok (some j) => exact .fetches hjob
    | .ok none | .error _ => exact .stays (by simp) (by simp)
  | stamp =>
    rw [hear_clock (by simp)]
    exact .stays (by simp) (by simp)
  | mark =>
    match a with
    | .ok (_ + 1) => exact .marks
    | .ok 0 | .error _ => exact .stays (by simp) (by simp)
  | @commit _ _ s hs =>
    match a with
    | .error _ => exact .ends
    | .ok () =>
      show Moves t st _ (st.committed t)
      rcases Stage.committed_cases t st with ⟨e, _, s', j, ch, rfl⟩ | e <;> rw [e]
      · obtain rfl := Option.some.inj hs
        exact .claims
      · exact .ends
  | rollback => exact .ends
  | load =>
    match a with
    | .ok (some v) => exact .loads rfl
    | .ok none | .error _ => exact .ends
  | publish => exact .stays (by simp) (by simp)
  | time hview =>
    rw [hear_clock (Stage.ne_idle_of_view hview)]
    exact .stays (by simp) (by simp)
  | invoke => exact .invokes rfl
  | reenter =>
    match a with
    | .ok s => exact .reenters
    | .error _ => exact .ends
  | giveUp hk =>
    match a with
    | .ok s => exact .givesUp hk
    | .error _ => exact .ends
  | settle =>
    match a with
    | .ok (_ + 1) => exact .settles
    | .ok 0 | .error _ => exact .stays (by simp) (by simp)
  | name | date => exact .stays (by simp) (by simp)
  | file => exact .ends
  | watch => exact .isTold
  | due =>
    match a with
    | .ok page => exact .lists rfl
    | .error _ => exact .ends
  | abandoned =>
    match a with
    | .ok page => exact .ends
    | .error _ => exact .ends

/-- The stages of a unit as a conduct. -/
def conduct (t : Task) : Conduct Engine Stage := ⟨May t, hear t⟩

theorem conduct_silent (t : Task) : (conduct t).Silent :=
  ⟨fun st l => .log t st l, fun _ _ => rfl⟩

/-- Behind its log lines a program is at the same stage. -/
theorem Program.Keeps.settled {α : Type} {t : Task} {post : Stage → α → Prop}
    {p : Program Engine α} {st : Stage} (h : p.Keeps (conduct t) post st) :
    p.settled.Keeps (conduct t) post st := by
  induction p with
  | done a => exact h
  | crash => exact h
  | call c k ih =>
    cases c with
    | log l => exact ih () (h.2 ())
    | _ => exact h

/-- A poll that gives identifiers has listed them. -/
def Ends (t : Task) (st : Stage) (r : Upshot) : Prop :=
  ∀ limit order ids, t = .poll limit order → r = .listed (.ok ids) →
    ∃ now page, st = .listed now page ∧ ids = page.items.map Job.id

/-! ## a record under its lock -/

section
variable {t : Task} {id : JobId} {s : SessionId} {ctx : Context} {st : Stage}

/-- A change in the session that is open: the time is read, and then the change is staged or not. -/
theorem keeps_update {changes : Changes} {post : Stage → Except JobError Unit → Prop}
    (hctx : ctx.session = some s) (hclock : May t st .clock) (hst : st ≠ .idle)
    (hmay : ∀ now, May t st (.store (.update s id { changes with updated := some now })))
    (hok : ∀ now, post (st.changed { changes with updated := some now }) (.ok ()))
    (herr : ∀ e, post st (.error e)) :
    Run.Keeps (conduct t) post (ctx.update id changes) st := by
  unfold Context.update
  simp only [transaction_joined hctx]
  rw [Run.keeps_bind, Run.keeps_liftM]
  refine ⟨hclock, ?_⟩
  intro (now : Instant)
  show Run.Keeps (conduct t) post _ (st.told now t)
  rw [Stage.told_of_ne_idle hst]
  unfold Context.write
  simp only [hctx]
  rw [Run.keeps_bind]
  refine ⟨hmay now, fun r => ?_⟩
  match r with
  | .ok 0 => exact herr _
  | .ok (_ + 1) => exact hok now
  | .error e => exact herr _

theorem keeps_fetch (hjob : t.job = some id) (hctx : ctx.session = some s) :
    Run.Keeps (conduct t)
      (fun st r => st.session = some s ∧ ∀ j, r = .ok (some j) → st = .fetched s j)
      (ctx.fetch id) (.opened s) := by
  unfold Context.fetch Context.load
  have hctx' : ctx.locking.session = some s := hctx
  simp only [hctx']
  refine ⟨.fetch hjob, fun r => ?_⟩
  match r with
  | .ok none => exact ⟨rfl, fun j h => by simp at h⟩
  | .ok (some j) => exact ⟨rfl, fun j' h => by injection h with h; injection h with h; rw [h]; rfl⟩
  | .error e =>
    show Program.Keeps _ _ (if (ctx.locking.classify id e).isContention then _ else _) _
    split
    · exact ⟨.log .., fun _ => ⟨rfl, fun j h => by simp at h⟩⟩
    · exact ⟨rfl, fun j h => by simp at h⟩

theorem keeps_prepare {c : Controller} {tag : String} {deadline : Nat} {j : Job}
    (hctx : ctx.session = some s) (hj : j.status = .pending) :
    Run.Keeps (conduct (.run c tag id deadline))
      (fun st r => st.session = some s ∧ ∀ j', r = .ok j' → ∃ c, st = .marked s j c)
      (ctx.prepare j) (.fetched s j) := by
  have hrun : j.status.become .running = .ok .running := by rw [hj]; rfl
  unfold Context.prepare
  rw [hrun, Run.keeps_bind, Run.keeps_rule]
  show Run.Keeps _ _ (ctx.update j.id _ >>= _) _
  rw [Run.keeps_bind]
  refine keeps_update hctx .stamp (by simp) (fun now => .mark (.claim now hj)) (fun now => ?_)
    (fun e => ⟨rfl, fun j' h => by simp at h⟩)
  show Run.Keeps _ _ (Run.rule _) _
  rw [Run.keeps_rule]
  exact ⟨rfl, fun j' _ => ⟨_, rfl⟩⟩

theorem keeps_claim {c : Controller} {tag : String} {deadline : Nat}
    (hctx : ctx.session = some s) :
    Run.Keeps (conduct (.run c tag id deadline))
      (fun st r => st.session = some s ∧ ∀ j, r = .ok (some j) → ∃ j' c, st = .marked s j' c)
      (ctx.claim id) (.opened s) := by
  unfold Context.claim
  rw [Run.keeps_bind, Run.keeps_lift]
  refine (keeps_fetch rfl hctx).mono fun st r h => ?_
  obtain ⟨hs, hj⟩ := h
  match r with
  | .ok none => exact ⟨hs, fun j h => by simp at h⟩
  | .ok (some j) =>
    obtain rfl := hj j rfl
    show Run.Keeps _ _ (if j.status.executable then _ else _) _
    rw [Run.keeps_ite]
    constructor
    · intro hex
      have hj : j.status = .pending := by simpa [Status.executable] using hex
      rw [map_eq_pure_bind, Run.keeps_bind]
      refine (keeps_prepare hctx hj).mono fun st r h => ?_
      cases r with
      | ok j' => exact ⟨h.1, fun _ _ => ⟨j, h.2 j' rfl⟩⟩
      | error e => exact ⟨h.1, fun _ h => by simp at h⟩
    · intro _
      exact ⟨.log .., fun _ => ⟨rfl, fun j h => by simp at h⟩⟩
  | .error (.notFound _) => exact ⟨.log .., fun _ => ⟨hs, fun j h => by simp at h⟩⟩
  | .error (.lockBusy _) | .error (.lockTimeout _) | .error (.unknownAction _)
  | .error (.domain _) | .error (.notify _) | .error (.store _) =>
    exact ⟨hs, fun j h => by simp at h⟩

theorem keeps_reset {tag : String} {j : Job} (hctx : ctx.session = some s)
    (hj : j.status = .running) :
    Run.Keeps (conduct (.clean tag id)) (fun st _ => st.session = some s) (ctx.reset j)
      (.fetched s j) := by
  have hpend : j.status.become .pending = .ok .pending := by rw [hj]; rfl
  unfold Context.reset
  rw [hpend, Run.keeps_bind, Run.keeps_rule]
  exact keeps_update hctx .stamp (by simp) (fun now => .mark (.reset now hj)) (fun _ => rfl)
    (fun _ => rfl)

theorem keeps_putBack {tag : String} (hctx : ctx.session = some s) :
    Run.Keeps (conduct (.clean tag id)) (fun st _ => st.session = some s) (ctx.putBack id)
      (.opened s) := by
  unfold Context.putBack
  rw [Run.keeps_bind]
  refine (keeps_fetch rfl hctx).mono fun st r h => ?_
  obtain ⟨hs, hj⟩ := h
  match r with
  | .error e => exact hs
  | .ok none => exact hs
  | .ok (some j) =>
    obtain rfl := hj j rfl
    show Run.Keeps _ _ (if j.status.resettable then _ else _) _
    rw [Run.keeps_ite]
    refine ⟨fun hre => ?_, fun _ => rfl⟩
    have hj : j.status = .running := by simpa [Status.resettable] using hre
    rw [Run.keeps_bind]
    refine (keeps_reset hctx hj).mono fun st r h => ?_
    cases r with
    | ok u =>
      show Run.Keeps _ _ (liftM (Run.log _)) _
      rw [Run.keeps_liftM, (conduct_silent _).keeps_log]
      exact h
    | error e => exact h

end

/-! ## an attempt -/

section
variable {t : Task} {ctx : Context} {v : Job} {how : Except ActionError Json} {st : Stage}

abbrev Anyway (α : Type) : Stage → Except JobError α → Prop := fun _ _ => True

/-- The record of an outcome, in a session of its own. -/
theorem keeps_record {changes : Changes} (hctx : ctx.session = none) (hview : st.view = some v)
    (hbegin : May t st (.store .begin)) (hrec : ∀ n, st.begun n = .recording v how n)
    (hset : ∀ now, Settles v how { changes with updated := some now }) :
    Run.Keeps (conduct t) (Anyway Unit) (ctx.update v.id changes) st := by
  have hst := Stage.ne_idle_of_view hview
  unfold Context.update
  rw [Run.keeps_bind, Run.keeps_liftM]
  refine ⟨.time hview, ?_⟩
  intro (now : Instant)
  show Run.Keeps (conduct t) _ _ (st.told now t)
  rw [Stage.told_of_ne_idle hst]
  refine (conduct_silent t).keeps_transaction hctx hbegin (fun _ => trivial) fun n => ?_
  show Run.Keeps (conduct t) _ _ (st.begun n)
  rw [hrec n, Run.keeps_bind]
  refine ⟨.settle (hset now), fun r => ?_⟩
  match r with
  | .ok 0 => exact ⟨.rollback rfl, fun _ => trivial⟩
  | .ok (_ + 1) => exact ⟨.commit rfl, trivial, fun _ => trivial⟩
  | .error e => exact ⟨.rollback rfl, fun _ => trivial⟩

theorem keeps_recordSuccess {result : Json} (hctx : ctx.session = none) (hview : st.view = some v)
    (hrun : v.status = .running) (hbegin : May t st (.store .begin))
    (hrec : ∀ n, st.begun n = .recording v (.ok result) n) :
    Run.Keeps (conduct t) (Anyway Outcome) (ctx.recordSuccess v result) st := by
  have hfin : v.status.become .finished = .ok .finished := by rw [hrun]; rfl
  unfold Context.recordSuccess
  rw [hfin, Run.keeps_bind]
  refine ⟨.publish hview, fun r => ?_⟩
  cases r with
  | error e => exact trivial
  | ok u =>
    show Run.Keeps _ _ (ctx.update v.id _ >>= _) st
    rw [Run.keeps_bind]
    refine (keeps_record hctx hview hbegin hrec fun now => .finished result now).mono
      fun st r _ => ?_
    cases r with
    | error e => exact trivial
    | ok u => exact ⟨.log .., fun _ => trivial⟩

theorem keeps_recordFailure {e : ActionError} (hctx : ctx.session = none)
    (hview : st.view = some v) (hrun : v.status = .running) (hbegin : May t st (.store .begin))
    (hrec : ∀ n, st.begun n = .recording v (.error e) n) :
    Run.Keeps (conduct t) (Anyway Outcome) (ctx.recordFailure v e.message) st := by
  have hpend : v.status.become .pending = .ok .pending := by rw [hrun]; rfl
  have herr : v.status.become .error = .ok .error := by rw [hrun]; rfl
  have hst := Stage.ne_idle_of_view hview
  unfold Context.recordFailure
  rw [hpend, herr, Run.keeps_bind, Run.keeps_liftM, (conduct_silent t).keeps_log, Run.keeps_bind]
  refine ⟨.publish hview, fun r => ?_⟩
  cases r with
  | error e => exact trivial
  | ok u =>
    show Run.Keeps _ _ (liftM Run.clock >>= _) st
    rw [Run.keeps_bind, Run.keeps_liftM]
    refine ⟨.time hview, ?_⟩
    intro (now : Instant)
    show Run.Keeps (conduct t) _ _ (st.told now t)
    rw [Stage.told_of_ne_idle hst]
    match hd : v.onFailure now with
    | none => exact trivial
    | some (.exhausted n) =>
      show Run.Keeps _ _ (ctx.update v.id _ >>= _) st
      rw [Run.keeps_bind]
      refine (keeps_record hctx hview hbegin hrec fun t => .exhausted e t hd).mono
        fun st r _ => ?_
      cases r with
      | error e => exact trivial
      | ok u => exact ⟨.log .., fun _ => trivial⟩
    | some (.retry n runAt) =>
      show Run.Keeps _ _ (ctx.update v.id _ >>= _) st
      rw [Run.keeps_bind]
      refine (keeps_record hctx hview hbegin hrec fun t => .retry e t hd).mono fun st r _ => ?_
      cases r with
      | error e => exact trivial
      | ok u => exact ⟨.log .., fun _ => trivial⟩

theorem keeps_execute {c : Controller} {tag : String} {id : JobId} {deadline : Nat}
    (hctx : ctx.session = none) :
    Run.Keeps (conduct (.run c tag id deadline)) (Anyway Outcome) (c.execute ctx v deadline)
      (.loaded v) := by
  unfold Controller.execute
  rw [Run.keeps_bind, Run.keeps_rule]
  by_cases hrun : v.status = .running
  · have hfin : v.status.become .finished = .ok .finished := by rw [hrun]; rfl
    rw [hfin]
    show Run.Keeps _ _ (liftM (Run.log _) >>= _) _
    rw [Run.keeps_bind, Run.keeps_liftM, (conduct_silent _).keeps_log, Run.keeps_bind]
    refine ⟨.publish rfl, fun r => ?_⟩
    cases r with
    | error e => exact trivial
    | ok u =>
      show Run.Keeps _ _ (ExceptT.lift (c.invoke v deadline) >>= _) (Stage.loaded v)
      rw [Run.keeps_bind, Run.keeps_lift]
      unfold Controller.invoke
      by_cases hk : c.kinds.contains v.action = true
      · rw [if_pos hk]
        refine ⟨.invoke hrun hk, fun r => ?_⟩
        match r with
        | some (.ok result) =>
          show Run.Keeps _ _ (ctx.recordSuccess v result) (Stage.invoked v (.ok result))
          exact keeps_recordSuccess hctx rfl hrun .reenter fun _ => rfl
        | some (.error e) =>
          show Run.Keeps _ _ (ctx.recordFailure v e.message) (Stage.invoked v (.error e))
          exact keeps_recordFailure hctx rfl hrun .reenter fun _ => rfl
        | none =>
          show Run.Keeps _ _ (ctx.recordFailure v (ActionError.timedOut deadline).message)
            (Stage.invoked v (.error (.timedOut deadline)))
          exact keeps_recordFailure hctx rfl hrun .reenter fun _ => rfl
      · rw [if_neg hk]
        show Run.Keeps _ _ (ctx.recordFailure v (ActionError.unsupported v.action).message)
          (Stage.loaded v)
        exact keeps_recordFailure hctx rfl hrun (.giveUp (Bool.eq_false_iff.mpr hk)) fun _ => rfl
  · have hno : ∃ e, v.status.become .finished = .error e := by
      cases hs : v.status with
      | running => exact absurd hs hrun
      | pending | finished | error => exact ⟨_, rfl⟩
    obtain ⟨e, he⟩ := hno
    rw [he]
    exact trivial

end

/-! ## whole units -/

theorem keeps_runUnit {c : Controller} {ctx : Context} {tag : String} {id : JobId}
    {deadline : Nat} (hctx : ctx.session = none) :
    Run.Keeps (conduct (.run c tag id deadline)) (Anyway Unit) (c.runUnit ctx id deadline)
      .idle := by
  unfold Controller.runUnit
  rw [Run.keeps_bind]
  -- a claim that is committed leads to `claimed`; what it finds else needs nothing
  refine (conduct_silent _).keeps_transaction hctx (.enter rfl) (fun _ => trivial) fun n => ?_
  refine (keeps_claim rfl).mono fun st r h => ?_
  obtain ⟨hs, hmark⟩ := h
  match r with
  | .error e => exact ⟨.rollback hs, fun _ => trivial⟩
  | .ok none => exact ⟨.commit hs, trivial, fun _ => trivial⟩
  | .ok (some j) =>
    refine ⟨.commit hs, ?_, fun _ => trivial⟩
    obtain ⟨j', ch, rfl⟩ := hmark j rfl
    show Run.Keeps _ _ (ctx.load id >>= _) Stage.claimed
    unfold Context.load
    simp only [hctx]
    rw [Run.keeps_bind]
    refine ⟨.load, fun r => ?_⟩
    match r with
    | .error e => exact trivial
    | .ok none => exact trivial
    | .ok (some v) =>
      show Run.Keeps _ _ (c.execute ctx v deadline >>= _) (Stage.loaded v)
      rw [Run.keeps_bind]
      refine (keeps_execute hctx).mono fun st r _ => ?_
      cases r <;> exact trivial

theorem keeps_cleanJob {ctx : Context} {tag : String} {id : JobId} (hctx : ctx.session = none) :
    Run.Keeps (conduct (.clean tag id)) (Anyway Unit) (Run.cleanJob ctx id) .idle := by
  unfold Run.cleanJob
  refine (conduct_silent _).keeps_footprint ?_
  refine (conduct_silent _).keeps_transaction hctx (.enter rfl) (fun _ => trivial) fun n => ?_
  refine (keeps_putBack rfl).mono fun st r hs => ?_
  cases r with
  | ok u => exact ⟨.commit hs, trivial, fun _ => trivial⟩
  | error e => exact ⟨.rollback hs, fun _ => trivial⟩

theorem keeps_create {c : Controller} {request : NewJob} :
    Run.Keeps (conduct (.create c request)) (Anyway Job) (c.create request) .idle := by
  unfold Controller.create
  split
  · exact trivial
  show Run.Keeps _ _ (liftM Run.freshId >>= _) Stage.idle
  rw [Run.keeps_bind, Run.keeps_liftM]
  refine ⟨.name, ?_⟩
  intro (id : JobId)
  show Run.Keeps _ _ (liftM Run.clock >>= _) Stage.idle
  rw [Run.keeps_bind, Run.keeps_liftM]
  refine ⟨.date, ?_⟩
  intro (now : Instant)
  show Run.Keeps _ _ (Run.rule (request.toJob id now) >>= _) Stage.idle
  rw [Run.keeps_bind, Run.keeps_rule]
  cases hj : request.toJob id now with
  | error e => exact trivial
  | ok j =>
    show Run.Keeps _ _ (Run.check (Run.store (.insert j)) .store >>= _) Stage.idle
    rw [Run.keeps_bind]
    refine ⟨.file hj, fun r => ?_⟩
    cases r with
    | error e => exact trivial
    | ok id' => exact ⟨.log .., fun _ => trivial⟩

theorem keeps_due {limit : UInt64} {order : SortOrder} :
    Run.Keeps (conduct (.poll limit order))
      (fun st r => ∀ ids, r = .ok ids →
        ∃ now page, st = .listed now page ∧ ids = page.items.map Job.id)
      (Run.due limit order) .idle := by
  unfold Run.due
  rw [Run.keeps_bind, Run.keeps_liftM]
  refine ⟨.watch, ?_⟩
  intro (now : Instant)
  refine ⟨.due, fun r => ?_⟩
  match r with
  | .ok page => exact fun ids h => ⟨now, page, rfl, (Except.ok.inj h).symm⟩
  | .error e => exact fun ids h => by simp at h

theorem keeps_abandoned : Run.Keeps (conduct .sweep) (Anyway (List JobId)) Run.abandoned .idle := by
  unfold Run.abandoned
  refine ⟨.abandoned, fun r => ?_⟩
  match r with
  | .ok page => exact trivial
  | .error e => exact trivial

/-- Every unit keeps to its stages. -/
theorem Task.keeps (t : Task) : t.program.Keeps (conduct t) (Ends t) .idle := by
  cases t with
  | create c request =>
    show (Program.bind _ _).Keeps _ _ _
    rw [Program.keeps_bind]
    exact keeps_create.mono fun _ _ _ _ _ _ h => by simp at h
  | run c tag id deadline =>
    show (Program.bind _ _).Keeps _ _ _
    rw [Program.keeps_bind]
    have h : Run.Keeps (conduct (.run c tag id deadline)) (Anyway Unit)
        (c.runJob (.forJob tag id) id deadline) .idle :=
      (conduct_silent _).keeps_footprint (keeps_runUnit rfl)
    exact h.mono fun _ _ _ _ _ _ h => by simp at h
  | clean tag id =>
    show (Program.bind _ _).Keeps _ _ _
    rw [Program.keeps_bind]
    exact (keeps_cleanJob rfl).mono fun _ _ _ _ _ _ h => by simp at h
  | poll limit order =>
    show (Program.bind _ _).Keeps _ _ _
    rw [Program.keeps_bind]
    refine keeps_due.mono fun st r h => ?_
    intro limit' order' ids _ hr
    injection hr with hr
    exact h ids hr
  | sweep =>
    show (Program.bind _ _).Keeps _ _ _
    rw [Program.keeps_bind]
    exact keeps_abandoned.mono fun _ _ _ _ _ _ h => by simp at h

end JobEngine
