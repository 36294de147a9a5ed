import JobEngine.Proofs.Pool.Basic

/-!
# Nests of scopes

A program over one context is built of transaction scopes, lock scopes, loads and writes, one inside
another and one behind another.  A scope that is entered changes the marks of the context, and takes
the change back when it is left.

* `Nest`              such programs; what follows may depend on all that was read;
* `Nest.exec`         a nest over a context that is changed in place;
* `Nest.run`          the same with a context for each scope, and `exec_eq`, that it is the same;
* `transaction_eq`    the transactions of the engine are such scopes;
* `Nest.Goes`         what a nest asks and hears, by its shape, with `Closes` for the ends;
* `Sessions`          one session after another, each with one end, and all calls through it;
* `scopes_and_locks_nest`   every nest against every store goes so, and restores its context.
-/

namespace JobEngine

/-- How a transaction scope is left. -/
inductive Leave (α : Type)
  | finish (r : Except JobError α)
  | drop

/-- What comes of a transaction scope. -/
inductive Passed (α : Type)
  /-- It could not be entered. -/
  | refused (e : JobError)
  | finished (r : Except JobError α)
  | dropped

def Leave.passed {α : Type} : Leave α → Passed α
  | finish r => .finished r
  | drop => .dropped

/-- A well-nested program over one context. -/
inductive Nest : Type → Type 1
  | pure {α : Type} (a : α) : Nest α
  | bind {α β : Type} (p : Nest α) (f : α → Nest β) : Nest β
  | load (id : JobId) : Nest (Except JobError (Option Job))
  | write (id : JobId) (changes : Changes) : Nest (Except JobError Nat)
  /-- Whether a transaction is open, and whether reads take row locks. -/
  | marks : Nest (Bool × Bool)
  | lock {α : Type} (body : Nest α) : Nest α
  | transaction {α : Type} (body : Nest (Leave α)) : Nest (Passed α)

namespace Scope

variable {α : Type}

def leave (s : Scope) : Leave α → Program Engine (Passed α)
  | .finish r => (s.finish r).run.bind fun r => .done (.finished r)
  | .drop => s.drop.bind fun _ => .done .dropped

/-- The context behind a scope; the session goes with the scope that opened it. -/
def left (s : Scope) : Context := if s.outermost then { s.ctx with session := none } else s.ctx

end Scope

namespace Nest

variable {α : Type}

/-- A nest over a context that is changed in place. -/
def exec : {α : Type} → Nest α → Context → Program Engine (α × Context)
  | _, .pure a, c => .done (a, c)
  | _, .bind p f, c => (p.exec c).bind fun x => (f x.1).exec x.2
  | _, .load id, c => (c.load id).run.bind fun r => .done (r, c)
  | _, .write id changes, c => (c.write id changes).run.bind fun r => .done (r, c)
  | _, .marks, c => .done ((c.inTransaction, c.inLock), c)
  | _, .lock body, c =>
    (body.exec c.locking).bind fun x => .done (x.1, { x.2 with inLock := c.inLock })
  | _, .transaction body, c => c.enter.run.bind fun
    | .error e => .done (.refused e, c)
    | .ok s => (body.exec s.ctx).bind fun x =>
      let s : Scope := { s with ctx := x.2 }
      (s.leave x.1).bind fun r => .done (r, s.left)

/-- A nest that hands each scope a context of its own. -/
def run : {α : Type} → Nest α → Context → Program Engine α
  | _, .pure a, _ => .done a
  | _, .bind p f, c => (p.run c).bind fun a => (f a).run c
  | _, .load id, c => (c.load id).run
  | _, .write id changes, c => (c.write id changes).run
  | _, .marks, c => .done (c.inTransaction, c.inLock)
  | _, .lock body, c => body.run c.locking
  | _, .transaction body, c => c.enter.run.bind fun
    | .error e => .done (.refused e)
    | .ok s => (body.run s.ctx).bind s.leave

end Nest

/-! ## entering -/

section
variable {c : Context} {s : SessionId}

theorem enter_joined (h : c.session = some s) : c.enter.run = .done (.ok ⟨c, false⟩) := by
  unfold Context.enter
  simp only [h]
  rfl

/-- What is left of entering when a session was opened or not. -/
def Context.entered (c : Context) : Except StoreError SessionId → Except JobError Scope
  | .ok s => .ok ⟨{ c with session := some s }, true⟩
  | .error e => .error (.store e)

theorem enter_opens (h : c.session = none) :
    c.enter.run = .call (.store .begin) fun r => .done (c.entered r) := by
  unfold Context.enter
  simp only [h]
  show Program.call _ _ = Program.call _ _
  congr
  funext r
  cases r <;> rfl

/-- A scope that joined a session asks nothing when it is left. -/
theorem leave_joined {α : Type} (l : Leave α) : Scope.leave ⟨c, false⟩ l = .done l.passed := by
  cases l <;> rfl

end

/-- It makes no difference whether scopes change one context or have their own. -/
theorem Nest.exec_eq {α : Type} (p : Nest α) (c : Context) :
    p.exec c = (p.run c).bind fun a => .done (a, c) := by
  induction p generalizing c with
  | pure a => rfl
  | bind p f ihp ihf =>
    unfold exec run
    rw [ihp, Program.bind_assoc, Program.bind_assoc]
    congr
    funext a
    exact ihf a c
  | load id => rfl
  | write id changes => rfl
  | marks => rfl
  | lock body ih =>
    unfold exec run
    rw [ih, Program.bind_assoc]
    rfl
  | transaction body ih =>
    -- The scope's context is the one it was entered with; what is left of it is `c`.
    have hleave (s : Scope) (hs : s.left = c) :
        ((body.exec s.ctx).bind fun x => (Scope.leave { s with ctx := x.2 } x.1).bind fun r =>
            .done (r, Scope.left { s with ctx := x.2 })) =
          ((body.run s.ctx).bind s.leave).bind fun r => .done (r, c) := by
      rw [ih, Program.bind_assoc, Program.bind_assoc]
      congr
      funext l
      show (s.leave l).bind (fun r => .done (r, s.left)) = _
      rw [hs]
    unfold exec run
    cases hc : c.session with
    | some s =>
      rw [enter_joined hc]
      exact hleave ⟨c, false⟩ rfl
    | none =>
      rw [enter_opens hc]
      show Program.call _ _ = Program.call _ _
      congr
      funext r
      cases r with
      | error e => rfl
      | ok s =>
        refine hleave ⟨{ c with session := some s }, true⟩ ?_
        show { c with session := none } = c
        rw [← hc]

/-- The result of a scope that is finished, as an operation gives it. -/
def Passed.result {α : Type} : Passed α → Program Engine (Except JobError α)
  | refused e => .done (.error e)
  | finished r => .done r
  | dropped => .crash

/-- The transactions of the engine are scopes that are finished with what their body gives. -/
theorem transaction_eq {α : Type} (c : Context) (body : Nest (Except JobError α)) :
    (c.transaction fun c => ExceptT.mk (body.run c)).run =
      ((Nest.transaction (.bind body fun r => .pure (.finish r))).run c).bind Passed.result := by
  unfold Context.transaction
  rw [ExceptT.run_bind, Program.bind_eq]
  show _ = (c.enter.run.bind _).bind Passed.result
  rw [Program.bind_assoc]
  congr
  funext x
  cases x with
  | error e => rfl
  | ok s =>
    show (ExceptT.lift (body.run s.ctx) >>= fun r => s.finish r).run =
      (((body.run s.ctx).bind fun r => .done (.finish r)).bind s.leave).bind Passed.result
    rw [ExceptT.run_bind, ExceptT.run_lift, Program.bind_assoc, Program.bind_assoc]
    show ((body.run s.ctx).bind fun r => .done (Except.ok r)).bind _ = _
    rw [Program.bind_assoc]
    congr
    funext r
    show (s.finish r).run = ((s.finish r).run.bind fun r => .done (.finished r)).bind Passed.result
    rw [Program.bind_assoc]
    exact (Program.bind_done_right _).symm

/-! ## what a nest asks and hears -/

/-- How the session of an outermost scope ends, by how the scope is left, and what comes of it. -/
inductive Closes (s : SessionId) {α : Type} : Leave α → List Heard → Passed α → Prop
  | committed (a : α) :
    Closes s (.finish (.ok a)) [⟨.store (.commit s), .ok ()⟩] (.finished (.ok a))
  | uncommitted (a : α) (e : StoreError) :
    Closes s (.finish (.ok a)) [⟨.store (.commit s), .error e⟩] (.finished (.error (.store e)))
  | rolledBack (e : JobError) :
    Closes s (.finish (.error e)) [⟨.store (.rollback s), .ok ()⟩] (.finished (.error e))
  | notRolledBack (e : JobError) (r : StoreError) :
    Closes s (.finish (.error e))
      [⟨.store (.rollback s), .error r⟩,
        ⟨.log (.warn "rollback failed"
          [("error", .str e.message), ("rollback_error", .str r.message)]), ()⟩]
      (.finished (.error e))
  | discarded :
    Closes s .drop
      [⟨.store (.discard s), ()⟩,
        ⟨.log (.warn "transaction scope left without finishing; session discarded" []), ()⟩]
      .dropped

/-- Over a context, a nest hears `hs` and ends with the result. -/
inductive Nest.Goes : {α : Type} → Nest α → Context → List Heard → α → Prop
  | pure {α : Type} (a : α) (c : Context) : Goes (.pure a) c [] a
  | bind {α β : Type} {p : Nest α} {f : α → Nest β} {c : Context} {hs hs' : List Heard} {a : α}
    {b : β} : p.Goes c hs a → (f a).Goes c hs' b → Goes (.bind p f) c (hs ++ hs') b
  | marks (c : Context) : Goes .marks c [] (c.session.isSome, c.inLock)
  /-- A read of a session takes the lock of its row exactly if the context is in a lock. -/
  | load {c : Context} {s : SessionId} (id : JobId) (r : Except StoreError (Option Job)) :
    c.session = some s →
    Goes (.load id) c [⟨.store (.get s id c.inLock), r⟩] (r.mapError (c.classify id))
  /-- Without a session there is nobody to hold a lock; the committed row is read. -/
  | read {c : Context} (id : JobId) (r : Except StoreError (Option Job)) : c.session = none →
    Goes (.load id) c [⟨.store (.read id), r⟩] (r.mapError (c.classify id))
  | update {c : Context} {s : SessionId} (id : JobId) (changes : Changes)
    (r : Except StoreError Nat) : c.session = some s →
    Goes (.write id changes) c [⟨.store (.update s id changes), r⟩] (r.mapError (c.classify id))
  | write {c : Context} (id : JobId) (changes : Changes) (r : Except StoreError Nat) :
    c.session = none →
    Goes (.write id changes) c [⟨.store (.write id changes), r⟩] (r.mapError (c.classify id))
  | lock {α : Type} {body : Nest α} {c : Context} {hs : List Heard} {a : α} :
    body.Goes { c with inLock := true } hs a → Goes (.lock body) c hs a
  | refused {α : Type} {body : Nest (Leave α)} {c : Context} (e : StoreError) :
    c.session = none →
    Goes (.transaction body) c [⟨.store .begin, .error e⟩] (.refused (.store e))
  | outermost {α : Type} {body : Nest (Leave α)} {c : Context} {s : SessionId}
    {hs fin : List Heard} {l : Leave α} {r : Passed α} : c.session = none →
    body.Goes { c with session := some s } hs l → Closes s l fin r →
    Goes (.transaction body) c (⟨.store .begin, .ok s⟩ :: (hs ++ fin)) r
  | inner {α : Type} {body : Nest (Leave α)} {c : Context} {hs : List Heard} {l : Leave α} :
    c.session.isSome → body.Goes c hs l → Goes (.transaction body) c hs l.passed

/-- A read or a change through a session. -/
def Heard.Through (s : SessionId) : Heard → Prop
  | ⟨.store (.get t _ _), _⟩ | ⟨.store (.update t _ _), _⟩ => t = s
  | _ => False

/-- A call without a session. -/
def Heard.Alone : Heard → Prop
  | ⟨.store (.read _), _⟩ | ⟨.store (.write _ _), _⟩ | ⟨.store .begin, .error _⟩ => True
  | _ => False

/-- One session after another.  Each is opened once and has one end, and between them nothing but
its own reads and changes is asked. -/
inductive Sessions : List Heard → Prop
  | nil : Sessions []
  | alone {h : Heard} {hs : List Heard} : h.Alone → Sessions hs → Sessions (h :: hs)
  | session {s : SessionId} {α : Type} {l : Leave α} {r : Passed α} {hs fin rest : List Heard} :
    (∀ h ∈ hs, h.Through s) → Closes s l fin r → Sessions rest →
    Sessions (⟨.store .begin, .ok s⟩ :: (hs ++ fin) ++ rest)

theorem Sessions.append {hs hs' : List Heard} (h : Sessions hs) (h' : Sessions hs') :
    Sessions (hs ++ hs') := by
  induction h with
  | nil => exact h'
  | alone ha _ ih => exact .alone ha ih
  | session hmid hfin _ ih =>
    rw [List.append_assoc]
    exact .session hmid hfin ih

theorem Sessions.single {h : Heard} (ha : h.Alone) : Sessions [h] := .alone ha .nil

namespace Nest

variable {α : Type} {p : Nest α} {c : Context} {hs : List Heard} {a : α}

/-- Inside a transaction scope all goes through its session, and no other is opened. -/
theorem Goes.through (h : p.Goes c hs a) {s : SessionId} (hc : c.session = some s) :
    ∀ h ∈ hs, h.Through s := by
  induction h with
  | pure | marks => exact fun _ h => nomatch h
  | bind _ _ ihp ihf =>
    intro h hmem
    rcases List.mem_append.mp hmem with hmem | hmem
    · exact ihp hc h hmem
    · exact ihf hc h hmem
  | load _ _ h | update _ _ _ h =>
    intro x hx
    obtain rfl := List.mem_singleton.mp hx
    exact Option.some.inj (h.symm.trans hc)
  | read _ _ h | write _ _ _ h | refused _ h | outermost h => exact nomatch h.symm.trans hc
  | lock _ ih => exact ih hc
  | inner _ _ ih => exact ih hc

theorem Goes.sessions (h : p.Goes c hs a) (hc : c.session = none) : Sessions hs := by
  induction h with
  | pure | marks => exact .nil
  | bind _ _ ihp ihf => exact (ihp hc).append (ihf hc)
  | load _ _ h | update _ _ _ h => exact nomatch h.symm.trans hc
  | read | write | refused => exact .single trivial
  | lock _ ih => exact ih hc
  | outermost _ hbody hfin _ =>
    have h := Sessions.session (hbody.through rfl) hfin .nil
    rwa [List.append_nil] at h
  | inner h => simp [hc] at h

end Nest

/-! ## every store -/

/-- What a program hears and how it ends, if each question is answered as `world` says; the answer
may depend on all that was asked and answered before. -/
def Program.against {α : Type} (world : List Heard → (c : EngineCall) → c.Answer) :
    Program Engine α → List Heard → Option (List Heard × α)
  | done a, past => some (past, a)
  | call c k, past => (k (world past c)).against world (past ++ [⟨c, world past c⟩])
  | crash, _ => none

section
variable {α β : Type} (world : List Heard → (c : EngineCall) → c.Answer)

namespace Program

/-- With all of `past` behind it, the program hears `hs` and ends with `a`. -/
def Hears (past : List Heard) (p : Program Engine α) (hs : List Heard) (a : α) : Prop :=
  p.against world past = some (past ++ hs, a)

variable {world} {past hs hs' : List Heard} {b : β}

theorem hears_done (a : α) : (done a : Program Engine α).Hears world past [] a := by
  simp [Hears, against]

theorem hears_call {c : EngineCall} {k : c.Answer → Program Engine α} {a : c.Answer} {r : α}
    (h : world past c = a) (hk : (k a).Hears world (past ++ [⟨c, a⟩]) hs r) :
    (call c k : Program Engine α).Hears world past (⟨c, a⟩ :: hs) r := by
  subst h
  unfold Hears at hk ⊢
  rw [List.append_cons]
  exact hk

theorem against_bind (p : Program Engine α) (f : α → Program Engine β) (past : List Heard) :
    (p.bind f).against world past =
      (p.against world past).bind fun x => (f x.2).against world x.1 := by
  induction p generalizing past with
  | done a => rfl
  | call c k ih => exact ih _ _
  | crash => rfl

theorem hears_bind {p : Program Engine α} {f : α → Program Engine β} {a : α}
    (hp : p.Hears world past hs a) (hf : (f a).Hears world (past ++ hs) hs' b) :
    (p.bind f).Hears world past (hs ++ hs') b := by
  unfold Hears at hp hf ⊢
  rw [against_bind, hp, ← List.append_assoc]
  exact hf

theorem hears_bind_done {p : Program Engine α} {f : α → Program Engine β} {a : α}
    (hp : p.Hears world past hs a) (hf : f a = done b) : (p.bind f).Hears world past hs b := by
  have h : (p.bind f).Hears world past (hs ++ []) b := hears_bind hp (hf ▸ hears_done b)
  rwa [List.append_nil] at h

theorem hears_store (c : StoreCall) :
    (Run.store c).Hears world past [⟨.store c, world past (.store c)⟩] (world past (.store c)) :=
  hears_call rfl (hears_done _)

theorem hears_check {ε : Type} {p : Program Engine (Except ε α)} {wrap : ε → JobError}
    {r : Except ε α} (hp : p.Hears world past hs r) :
    (Run.check p wrap).run.Hears world past hs (r.mapError wrap) :=
  hears_bind_done hp (by cases r <;> rfl)

end Program

open Program

/-- The end of a session is the one that the way out of its scope calls for. -/
theorem leave_closes (c : Context) (s : SessionId) (l : Leave α) (past : List Heard) :
    ∃ fin r,
      (Scope.leave ⟨{ c with session := some s }, true⟩ l).Hears world past fin r ∧
      Closes s l fin r := by
  match l with
  | .finish (.ok a) =>
    cases h : world past (.store (.commit s)) with
    | ok u => exact ⟨_, _, hears_call h (hears_done _), .committed a⟩
    | error e => exact ⟨_, _, hears_call h (hears_done _), .uncommitted a e⟩
  | .finish (.error e) =>
    cases h : world past (.store (.rollback s)) with
    | ok u => exact ⟨_, _, hears_call h (hears_done _), .rolledBack e⟩
    | error r => exact ⟨_, _, hears_call h (hears_call rfl (hears_done _)), .notRolledBack e r⟩
  | .drop => exact ⟨_, _, hears_call rfl (hears_call rfl (hears_done _)), .discarded⟩

/-- Whatever was heard before it, a nest goes as its shape says. -/
theorem Nest.run_goes (p : Nest α) (c : Context) (past : List Heard) :
    ∃ hs a, (p.run c).Hears world past hs a ∧ p.Goes c hs a := by
  induction p generalizing c past with
  | pure a => exact ⟨[], a, hears_done a, .pure a c⟩
  | bind p f ihp ihf =>
    obtain ⟨hs, a, hrun, hgo⟩ := ihp c past
    obtain ⟨hs', b, hrun', hgo'⟩ := ihf a c (past ++ hs)
    exact ⟨hs ++ hs', b, hears_bind hrun hrun', .bind hgo hgo'⟩
  | marks => exact ⟨[], _, hears_done _, .marks c⟩
  | load id =>
    unfold run Context.load
    split
    · next s hc => exact ⟨_, _, hears_check (hears_store _), .load id _ hc⟩
    · next hc => exact ⟨_, _, hears_check (hears_store _), .read id _ hc⟩
  | write id changes =>
    unfold run Context.write
    split
    · next s hc => exact ⟨_, _, hears_check (hears_store _), .update id changes _ hc⟩
    · next hc => exact ⟨_, _, hears_check (hears_store _), .write id changes _ hc⟩
  | lock body ih =>
    obtain ⟨hs, a, hrun, hgo⟩ := ih c.locking past
    exact ⟨hs, a, hrun, .lock hgo⟩
  | transaction body ih =>
    unfold run
    cases hc : c.session with
    | some s =>
      obtain ⟨hs, l, hrun, hgo⟩ := ih c past
      refine ⟨hs, l.passed, ?_, .inner (by rw [hc]; rfl) hgo⟩
      rw [enter_joined hc]
      show ((body.run c).bind (Scope.leave ⟨c, false⟩)).Hears world past hs l.passed
      exact hears_bind_done hrun (leave_joined l)
    | none =>
      rw [enter_opens hc]
      cases h : world past (.store .begin) with
      | error e => exact ⟨_, _, hears_call h (hears_done _), .refused e hc⟩
      | ok s =>
        obtain ⟨hs, l, hrun, hgo⟩ :=
          ih { c with session := some s } (past ++ [⟨.store .begin, .ok s⟩])
        obtain ⟨fin, r, hend, hfin⟩ :=
          leave_closes world c s l (past ++ [⟨.store .begin, .ok s⟩] ++ hs)
        have hscope : ((body.run { c with session := some s }).bind
            (Scope.leave ⟨{ c with session := some s }, true⟩)).Hears world
            (past ++ [⟨.store .begin, .ok s⟩]) (hs ++ fin) r := hears_bind hrun hend
        exact ⟨_, _, hears_call h hscope, .outermost hc hgo hfin⟩

/-- Every nest, outside of a transaction and against every store, comes to an end: the context is
then as it was, what was asked and heard is told by the nest's shape, and it is one session after
another. -/
theorem scopes_and_locks_nest (p : Nest α) {ctx : Context} (hctx : ctx.session = none)
    (world : List Heard → (c : EngineCall) → c.Answer) :
    ∃ hs a, (p.exec ctx).against world [] = some (hs, (a, ctx)) ∧ p.Goes ctx hs a ∧
      Sessions hs := by
  obtain ⟨hs, a, hrun, hgo⟩ := p.run_goes world ctx []
  have hexec : (p.exec ctx).Hears world [] hs (a, ctx) := by
    rw [p.exec_eq]
    exact hears_bind_done hrun rfl
  exact ⟨hs, a, hexec, hgo, hgo.sessions hctx⟩

end

/-- A read under a lock and a change in a dropped scope, in a transaction that is finished with what
was read; behind it the marks. -/
def readAndDrop (id : JobId) : Nest (Passed (Except JobError (Option Job)) × (Bool × Bool)) :=
  .bind
    (.transaction
      (.bind (.lock (.load id)) fun r =>
        .bind (.transaction (α := Unit) (.bind (.write id {}) fun _ => .pure .drop)) fun _ =>
          .pure (.finish (.ok r))))
    fun r => .bind .marks fun m => .pure (r, m)

/-- A store that opens sessions, finds no rows and fails to commit. -/
def losesCommits : List Heard → (c : EngineCall) → c.Answer
  | _, .store .begin => .ok 1
  | _, .store (.get _ _ _) => .ok none
  | _, .store (.update _ _ _) => .ok 0
  | _, .store c => c.refuse .lockWaitTimeout
  | _, .clock => .epoch
  | _, .publish _ => .ok ()
  | _, .invoke _ => none
  | _, .log _ => ()
  | _, .freshId => (default : JobId)
  | _, .pause _ => ()

/-- The dropped scope inside ends nothing, the commit fails, and the transaction is over. -/
theorem failed_commit_ends_session :
    ∃ hs, ((readAndDrop default).exec (.fresh "a")).against losesCommits [] =
        some (hs, ((.finished (.error (.store .lockWaitTimeout)), (false, false)), .fresh "a")) ∧
      hs.map Sigma.fst =
        [.store .begin, .store (.get 1 default true), .store (.update 1 default {}),
          .store (.commit 1)] ∧
      Sessions hs := by
  have hctx : (Context.fresh "a").session = none := rfl
  obtain ⟨hs, a, hrun, -, hs'⟩ := scopes_and_locks_nest (readAndDrop default) hctx losesCommits
  obtain ⟨rfl, -⟩ := Prod.mk.inj (Option.some.inj hrun)
  exact ⟨_, rfl, rfl, hs'⟩

end JobEngine
