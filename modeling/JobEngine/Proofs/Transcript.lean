import JobEngine.Proofs.Conduct
import JobEngine.Proofs.Pool.Basic

/-!
# Transcripts of a program

A transcript holds what a program asks and is answered, from its start to its end.  Log lines make
nobody wait, and are left out.  Where a program breaks down it has no result.

* `Program.Yields`   a program goes by a transcript and ends so;
* `Program.Always`   what holds of every transcript of a program;
* `Always.bind`      one program behind another;
* `Scoped`, `Context.always_transaction`   the transcripts of a transaction scope, by those of its
  body;
* `Written`, `Context.always_update`       those of a change of a record.
-/

namespace JobEngine

theorem EngineCall.nonempty_answer : (c : EngineCall) → Nonempty c.Answer
  | .store c => ⟨c.refuse .rowLocked⟩
  | .clock => ⟨Instant.epoch⟩
  | .publish _ => ⟨(.ok () : Except NotifyError Unit)⟩
  | .invoke _ => ⟨(none : Option (Except ActionError Json))⟩
  | .log _ => ⟨()⟩
  | .freshId => ⟨(⟨0⟩ : JobId)⟩
  | .pause _ => ⟨()⟩

namespace Program

variable {α β : Type} {hs : List Heard} {r : Option α}

/-- Answered as in `hs`, the program ends with `r`. -/
inductive Yields : Program Engine α → List Heard → Option α → Prop
  | done (a : α) : Yields (done a) [] (some a)
  | crash : Yields crash [] none
  | log {l : LogLine} {k : (EngineCall.log l).Answer → Program Engine α} {hs : List Heard}
    {r : Option α} : Yields (k ()) hs r → Yields (call (.log l) k) hs r
  | call {c : EngineCall} {k : c.Answer → Program Engine α} {a : c.Answer} {hs : List Heard}
    {r : Option α} : (∀ l, c ≠ .log l) → Yields (k a) hs r →
    Yields (call c k) (⟨c, a⟩ :: hs) r

theorem yields_done {a : α} : (done a : Program Engine α).Yields hs r ↔ hs = [] ∧ r = some a := by
  constructor
  · intro h
    cases h
    exact ⟨rfl, rfl⟩
  · rintro ⟨rfl, rfl⟩
    exact .done a

theorem yields_log {l : LogLine} {k : (EngineCall.log l).Answer → Program Engine α} :
    (call (EngineCall.log l) k : Program Engine α).Yields hs r ↔ (k ()).Yields hs r := by
  constructor
  · intro h
    cases h with
    | log h => exact h
    | call hc _ => exact absurd rfl (hc l)
  · exact .log

theorem yields_call {c : EngineCall} {k : c.Answer → Program Engine α} (hc : ∀ l, c ≠ .log l) :
    (call c k : Program Engine α).Yields hs r ↔
      ∃ a hs', hs = ⟨c, a⟩ :: hs' ∧ (k a).Yields hs' r := by
  constructor
  · intro h
    cases h with
    | log _ => exact absurd rfl (hc _)
    | @call _ _ a hs' _ _ h => exact ⟨a, hs', rfl, h⟩
  · rintro ⟨a, hs', rfl, h⟩
    exact .call hc h

/-- The log lines that a program begins with make no difference. -/
theorem yields_settled (p : Program Engine α) : p.settled.Yields hs r ↔ p.Yields hs r := by
  induction p with
  | done a => rfl
  | crash => rfl
  | call c k ih =>
    cases c with
    | log l => exact (ih ()).trans yields_log.symm
    | _ => rfl

/-- A program has a transcript. -/
theorem exists_yields (p : Program Engine α) : ∃ hs r, p.Yields hs r := by
  induction p with
  | done a => exact ⟨[], some a, .done a⟩
  | crash => exact ⟨[], none, .crash⟩
  | call c k ih =>
    obtain ⟨a⟩ := c.nonempty_answer
    obtain ⟨hs, r, h⟩ := ih a
    by_cases hc : ∃ l, c = .log l
    · obtain ⟨l, rfl⟩ := hc
      exact ⟨hs, r, .log h⟩
    · exact ⟨⟨c, a⟩ :: hs, r, .call (fun l e => hc ⟨l, e⟩) h⟩

/-- A program breaks down, or another one goes on behind its end. -/
theorem yields_bind {p : Program Engine α} {f : α → Program Engine β} {r : Option β}
    (h : (p.bind f).Yields hs r) :
    (p.Yields hs none ∧ r = none) ∨
      ∃ a hs₁ hs₂, hs = hs₁ ++ hs₂ ∧ p.Yields hs₁ (some a) ∧ (f a).Yields hs₂ r := by
  induction p generalizing hs with
  | done a => exact Or.inr ⟨a, [], hs, rfl, .done a, h⟩
  | crash =>
    cases h
    exact Or.inl ⟨.crash, rfl⟩
  | call c k ih =>
    rw [bind_call] at h
    cases h with
    | log h =>
      rcases ih () h with ⟨hk, rfl⟩ | ⟨a, hs₁, hs₂, rfl, hk, hf⟩
      · exact Or.inl ⟨.log hk, rfl⟩
      · exact Or.inr ⟨a, hs₁, hs₂, rfl, .log hk, hf⟩
    | @call _ _ b hs' _ hc h =>
      rcases ih b h with ⟨hk, rfl⟩ | ⟨a, hs₁, hs₂, rfl, hk, hf⟩
      · exact Or.inl ⟨.call hc hk, rfl⟩
      · exact Or.inr ⟨a, ⟨c, b⟩ :: hs₁, hs₂, rfl, .call hc hk, hf⟩

/-- Whatever a program is answered, it goes so and ends so. -/
def Always (S : List Heard → Option α → Prop) (p : Program Engine α) : Prop :=
  ∀ hs r, p.Yields hs r → S hs r

variable {S S' : List Heard → Option α → Prop}

theorem Always.mono {p : Program Engine α} (h : p.Always S) (hS : ∀ hs r, S hs r → S' hs r) :
    p.Always S' := fun hs r hp => hS hs r (h hs r hp)

theorem always_done {a : α} (h : S [] (some a)) : (done a : Program Engine α).Always S := by
  intro hs r hp
  obtain ⟨rfl, rfl⟩ := yields_done.mp hp
  exact h

theorem always_crash (h : S [] none) : (crash : Program Engine α).Always S := by
  intro hs r hp
  cases hp
  exact h

theorem always_call {c : EngineCall} {k : c.Answer → Program Engine α} (hc : ∀ l, c ≠ .log l)
    (h : ∀ a, (k a).Always fun hs r => S (⟨c, a⟩ :: hs) r) :
    (call c k : Program Engine α).Always S := by
  intro hs r hp
  obtain ⟨a, hs', rfl, hk⟩ := (yields_call hc).mp hp
  exact h a hs' r hk

theorem Always.log {l : LogLine} {k : (EngineCall.log l).Answer → Program Engine α}
    (h : (k ()).Always S) : (call (EngineCall.log l) k : Program Engine α).Always S :=
  fun hs r hp => h hs r (yields_log.mp hp)

theorem Always.bind {S : List Heard → Option β → Prop} {A : List Heard → Option α → Prop}
    {p : Program Engine α} {f : α → Program Engine β} (hp : p.Always A)
    (hcrash : ∀ hs, A hs none → S hs none)
    (hf : ∀ a hs, A hs (some a) → (f a).Always fun hs' r => S (hs ++ hs') r) :
    (p.bind f).Always S := by
  intro hs r h
  rcases yields_bind h with ⟨hnone, rfl⟩ | ⟨a, hs₁, hs₂, rfl, hsome, hrest⟩
  · exact hcrash hs (hp hs none hnone)
  · exact hf a hs₁ (hp hs₁ (some a) hsome) hs₂ r hrest

end Program

/-! ## operations of the engine -/

namespace Run

open Program

variable {α β : Type} {S : List Heard → Option (Except JobError β) → Prop}

/-- Whatever an operation is answered, it comes to an end, and goes so. -/
abbrev Comes (G : List Heard → Except JobError α → Prop) (x : Run α) : Prop :=
  x.run.Always fun hs r => ∃ res, r = some res ∧ G hs res

theorem always_bind {A : List Heard → Option (Except JobError α) → Prop} {x : Run α}
    {f : α → Run β} (hx : x.run.Always A) (hcrash : ∀ hs, A hs none → S hs none)
    (herr : ∀ hs e, A hs (some (.error e)) → S hs (some (.error e)))
    (hf : ∀ hs a, A hs (some (.ok a)) → (f a).run.Always fun hs' r => S (hs ++ hs') r) :
    (x >>= f).run.Always S := by
  rw [ExceptT.run_bind, bind_eq]
  refine hx.bind hcrash fun r hs h => ?_
  cases r with
  | ok a => exact hf hs a h
  | error e =>
    refine always_done ?_
    rw [List.append_nil]
    exact herr hs e h

/-- An operation that comes to an end is followed by another one. -/
theorem Comes.bind {G : List Heard → Except JobError α → Prop} {x : Run α} {f : α → Run β}
    (hx : x.Comes G) (herr : ∀ hs e, G hs (.error e) → S hs (some (.error e)))
    (hf : ∀ hs a, G hs (.ok a) → (f a).run.Always fun hs' r => S (hs ++ hs') r) :
    (x >>= f).run.Always S := by
  refine always_bind hx (fun hs h => ?_) (fun hs e h => ?_) fun hs a h => ?_
  · obtain ⟨res, hres, _⟩ := h
    simp at hres
  · obtain ⟨res, hres, h⟩ := h
    exact herr hs e (Option.some.inj hres ▸ h)
  · obtain ⟨res, hres, h⟩ := h
    exact hf hs a (Option.some.inj hres ▸ h)

theorem always_lift {p : Program Engine β}
    (h : p.Always fun hs r => S hs (r.map .ok)) : (ExceptT.lift p : Run β).run.Always S := by
  rw [ExceptT.run_lift]
  show (p.bind fun a => done (Except.ok a)).Always S
  refine h.bind (fun _ h => h) fun a hs h => always_done ?_
  rwa [List.append_nil]

/-- An operation whose result is looked at, whatever it is. -/
theorem comes_lift {G : List Heard → Except JobError α → Prop} {x : Run α} (h : x.Comes G) :
    Run.Comes (fun hs r => ∃ res, r = .ok res ∧ G hs res) (ExceptT.lift x.run) := by
  refine always_lift (h.mono fun hs r h => ?_)
  obtain ⟨res, rfl, h⟩ := h
  exact ⟨_, rfl, res, rfl, h⟩

theorem always_log {l : LogLine} {f : Unit → Run β} (h : (f ()).run.Always S) :
    ((liftM (Run.log l) : Run Unit) >>= f).run.Always S := Always.log h

theorem always_clock {f : Instant → Run β}
    (h : ∀ now, (f now).run.Always fun hs r => S (⟨.clock, now⟩ :: hs) r) :
    ((liftM Run.clock : Run Instant) >>= f).run.Always S :=
  always_call (by simp) h

theorem always_check {ε : Type} {p : Program Engine (Except ε β)} {wrap : ε → JobError}
    (h : p.Always fun hs r => S hs (r.map (Except.mapError wrap))) :
    (Run.check p wrap).run.Always S := by
  show (p.bind _).Always S
  refine h.bind (fun _ h => h) fun r hs h => ?_
  cases r with
  | ok a => exact always_done (by rwa [List.append_nil])
  | error e => exact always_done (by rwa [List.append_nil])

/-- An announcement that fails is the end. -/
theorem always_publish {event : JobEvent} {f : Unit → Run β}
    (herr : ∀ e, S [⟨.publish event, .error e⟩] (some (.error (.notify e))))
    (h : (f ()).run.Always fun hs r => S (⟨.publish event, .ok ()⟩ :: hs) r) :
    (Run.publish event >>= f).run.Always S := by
  refine always_bind (A := fun hs r => ∃ a : Except NotifyError Unit,
    hs = [⟨.publish event, a⟩] ∧ r = some (a.mapError .notify)) ?_ ?_ ?_ ?_
  · exact always_check (always_call (by simp) fun a => always_done ⟨a, rfl, rfl⟩)
  · rintro _ ⟨a, rfl, hr⟩
    cases hr
  · rintro _ e ⟨a, rfl, hr⟩
    cases a with
    | ok => cases hr
    | error e' =>
      cases hr
      exact herr e'
  · rintro _ u ⟨a, rfl, hr⟩
    cases a with
    | ok => exact h
    | error => cases hr

theorem always_rule {r : Except DomainError β} (h : S [] (some (r.mapError .domain))) :
    (Run.rule r).run.Always S :=
  always_check (always_done h)

/-- A report of a failure is a log line. -/
theorem always_footprint {operation : String} {x : Run β} (h : x.run.Always S) :
    (Run.footprint operation x).run.Always S := by
  show (x.run.bind _).Always S
  refine h.bind (fun _ h => h) fun r hs h => ?_
  cases r with
  | ok a => exact always_done (by rwa [List.append_nil])
  | error e => exact .log (always_done (by rwa [List.append_nil]))

end Run

/-! ## transactions -/

/-- The transcripts of a scope: it joins the session that is open, or has one of its own, which is
committed behind a success and rolled back behind a failure. -/
inductive Scoped {α : Type} (ctx : Context)
    (body : Context → List Heard → Except JobError α → Prop) :
    List Heard → Except JobError α → Prop
  | joined {s : SessionId} {hs : List Heard} {r : Except JobError α} : ctx.session = some s →
    body ctx hs r → Scoped ctx body hs r
  | refused (e : StoreError) : ctx.session = none →
    Scoped ctx body [⟨.store .begin, .error e⟩] (.error (.store e))
  | committed {s : SessionId} {hs : List Heard} {a : α} : ctx.session = none →
    body { ctx with session := some s } hs (.ok a) →
    Scoped ctx body (⟨.store .begin, .ok s⟩ :: (hs ++ [⟨.store (.commit s), .ok ()⟩])) (.ok a)
  | uncommitted {s : SessionId} {hs : List Heard} {a : α} (e : StoreError) : ctx.session = none →
    body { ctx with session := some s } hs (.ok a) →
    Scoped ctx body (⟨.store .begin, .ok s⟩ :: (hs ++ [⟨.store (.commit s), .error e⟩]))
      (.error (.store e))
  | rolledBack {s : SessionId} {hs : List Heard} {e : JobError} (b : Except StoreError Unit) :
    ctx.session = none → body { ctx with session := some s } hs (.error e) →
    Scoped ctx body (⟨.store .begin, .ok s⟩ :: (hs ++ [⟨.store (.rollback s), b⟩])) (.error e)

/-- Two results are one failure, or are both successes that belong together. -/
inductive Alike {α β : Type} (Q : α → β → Prop) : Except JobError α → Except JobError β → Prop
  | error (e : JobError) : Alike Q (.error e) (.error e)
  | ok {a : α} {b : β} : Q a b → Alike Q (.ok a) (.ok b)

/-- A scope goes with whatever its body goes with. -/
theorem Scoped.imp {α β : Type} {Q : α → β → Prop} {ctx : Context}
    {G : Context → List Heard → Except JobError α → Prop}
    {G' : Context → List Heard → Except JobError β → Prop} {hs : List Heard}
    {r : Except JobError α} (h : Scoped ctx G hs r)
    (hG : ∀ ctx' hs r, G ctx' hs r → ∃ b, G' ctx' hs b ∧ Alike Q r b) :
    ∃ b, Scoped ctx G' hs b ∧ Alike Q r b := by
  cases h with
  | joined hctx h =>
    obtain ⟨b, hb, hr⟩ := hG _ _ _ h
    exact ⟨b, .joined hctx hb, hr⟩
  | refused e hctx => exact ⟨_, .refused e hctx, .error _⟩
  | committed hctx h =>
    obtain ⟨_, hb, hr⟩ := hG _ _ _ h
    cases hr with
    | ok hQ => exact ⟨_, .committed hctx hb, .ok hQ⟩
  | uncommitted e hctx h =>
    obtain ⟨_, hb, hr⟩ := hG _ _ _ h
    cases hr with
    | ok _ => exact ⟨_, .uncommitted e hctx hb, .error _⟩
  | rolledBack b hctx h =>
    obtain ⟨_, hb, hr⟩ := hG _ _ _ h
    cases hr with
    | error => exact ⟨_, .rolledBack b hctx hb, .error _⟩

namespace Context

open Program Run

variable {α : Type} {ctx : Context} {s : SessionId} {id : JobId}

theorem always_finish {r : Except JobError α} {S : List Heard → Option (Except JobError α) → Prop}
    (hctx : ctx.session = some s)
    (hok : ∀ a, r = .ok a → S [⟨.store (.commit s), .ok ()⟩] (some (.ok a)))
    (hfail : ∀ a e, r = .ok a → S [⟨.store (.commit s), .error e⟩] (some (.error (.store e))))
    (herr : ∀ e b, r = .error e → S [⟨.store (.rollback s), b⟩] (some (.error e))) :
    (Scope.finish ⟨ctx, true⟩ r).run.Always S := by
  unfold Scope.finish
  rw [if_pos rfl]
  cases r with
  | ok a =>
    simp only [hctx]
    refine always_call (by simp) fun b => ?_
    match b with
    | .ok () => exact always_done (hok a rfl)
    | .error e => exact always_done (hfail a e rfl)
  | error e =>
    simp only [hctx]
    refine always_call (by simp) fun b => ?_
    match b with
    | .ok () => exact always_done (herr e (.ok ()) rfl)
    | .error e' => exact .log (always_done (herr e (.error e') rfl))

theorem comes_transaction {body : Context → Run α}
    {G : Context → List Heard → Except JobError α → Prop}
    (hbody : ∀ ctx' : Context, ctx'.session.isSome → (body ctx').Comes (G ctx')) :
    (ctx.transaction body).Comes (Scoped ctx G) := by
  cases hctx : ctx.session with
  | some s =>
    rw [transaction_joined hctx]
    refine (hbody ctx (by rw [hctx]; rfl)).mono fun hs r h => ?_
    obtain ⟨res, rfl, h⟩ := h
    exact ⟨res, rfl, .joined hctx h⟩
  | none =>
    unfold Context.transaction Context.enter
    simp only [hctx]
    refine always_call (by simp) fun b => ?_
    match b with
    | .error e => exact always_done ⟨_, rfl, .refused e hctx⟩
    | .ok s =>
      show (ExceptT.lift (body { ctx with session := some s }).run >>=
        fun r => Scope.finish ⟨{ ctx with session := some s }, true⟩ r).run.Always _
      refine (comes_lift (hbody { ctx with session := some s } rfl)).bind ?_ ?_
      · rintro hs e ⟨res, h, _⟩
        simp at h
      · rintro hs r ⟨res, hr, h⟩
        obtain rfl := Except.ok.inj hr
        refine always_finish rfl (fun a hr => ?_) (fun a e hr => ?_) fun e b hr => ?_
        · exact ⟨_, rfl, .committed hctx (hr ▸ h)⟩
        · exact ⟨_, rfl, .uncommitted e hctx (hr ▸ h)⟩
        · exact ⟨_, rfl, .rolledBack b hctx (hr ▸ h)⟩

/-! ## a change of a record -/

end Context

/-- The transcripts of a change in an open transaction. -/
inductive Written (id : JobId) (c : Changes) (ctx : Context) :
    List Heard → Except JobError Unit → Prop
  | failed {s : SessionId} (e : StoreError) : ctx.session = some s →
    Written id c ctx [⟨.store (.update s id c), .error e⟩] (.error (ctx.classify id e))
  | absent {s : SessionId} : ctx.session = some s →
    Written id c ctx [⟨.store (.update s id c), .ok 0⟩] (.error (.notFound id))
  | changed {s : SessionId} (n : Nat) : ctx.session = some s →
    Written id c ctx [⟨.store (.update s id c), .ok (n + 1)⟩] (.ok ())

/-- The transcripts of a change that is stamped with the time. -/
def Updated (ctx : Context) (id : JobId) (c : Changes) (hs : List Heard)
    (r : Except JobError Unit) : Prop :=
  ∃ now hs', hs = ⟨.clock, now⟩ :: hs' ∧
    Scoped ctx (Written id { c with updated := some now }) hs' r

/-- In a transaction that is open, a change is one question behind the time. -/
theorem Updated.joined {ctx : Context} {s : SessionId} {id : JobId} {c : Changes} {hs : List Heard}
    {r : Except JobError Unit} (h : Updated ctx id c hs r) (hctx : ctx.session = some s) :
    ∃ now a, hs = [⟨.clock, now⟩, ⟨.store (.update s id { c with updated := some now }), a⟩] ∧
      ((∃ e, a = .error e ∧ r = .error (ctx.classify id e)) ∨
        (a = .ok 0 ∧ r = .error (.notFound id)) ∨ ∃ n, a = .ok (n + 1) ∧ r = .ok ()) := by
  obtain ⟨now, hs, rfl, h⟩ := h
  cases h with
  | @joined s' _ _ _ h =>
    cases h with
    | failed e hs' =>
      obtain rfl := Option.some.inj (hs'.symm.trans hctx)
      exact ⟨now, _, rfl, Or.inl ⟨e, rfl, rfl⟩⟩
    | absent hs' =>
      obtain rfl := Option.some.inj (hs'.symm.trans hctx)
      exact ⟨now, _, rfl, Or.inr (Or.inl ⟨rfl, rfl⟩)⟩
    | changed n hs' =>
      obtain rfl := Option.some.inj (hs'.symm.trans hctx)
      exact ⟨now, _, rfl, Or.inr (Or.inr ⟨n, rfl, rfl⟩)⟩
  | refused _ h | committed h | uncommitted _ h | rolledBack _ h => exact nomatch h.symm.trans hctx

namespace Context

open Program Run

theorem comes_update (ctx : Context) (id : JobId) (c : Changes) :
    (ctx.update id c).Comes (Updated ctx id c) := by
  unfold Context.update
  refine always_clock fun now => ?_
  have hbody : ∀ ctx' : Context, ctx'.session.isSome →
      Run.Comes (Written id { c with updated := some now } ctx')
        (do let rows ← ctx'.write id { c with updated := some now }
            if rows = 0 then throw (.notFound id)) := by
    intro ctx' hctx'
    obtain ⟨s, hs⟩ := Option.isSome_iff_exists.mp hctx'
    unfold Context.write
    simp only [hs]
    refine always_call (by simp) fun b => ?_
    match b with
    | .error e => exact always_done ⟨_, rfl, .failed e hs⟩
    | .ok 0 => exact always_done ⟨_, rfl, .absent hs⟩
    | .ok (n + 1) => exact always_done ⟨_, rfl, .changed n hs⟩
  refine (comes_transaction hbody).mono fun hs r h => ?_
  obtain ⟨res, rfl, h⟩ := h
  exact ⟨res, rfl, now, hs, rfl, h⟩

end Context

end JobEngine
