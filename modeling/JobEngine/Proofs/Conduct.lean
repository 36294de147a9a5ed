import JobEngine.Execution.Context

/-!
# Conduct of a program

Which questions a program asks, and in which order, is told by stages: at a stage some questions may
be asked, and an answer leads to the next stage.

* `Conduct`         the questions of each stage, and the stage behind an answer;
* `Program.Keeps`   a program keeps to a conduct from a stage on, and ends as stated;
* `keeps_bind`, `Keeps.mono`   one program behind another, and a weaker end;
* `keeps_transaction`, `transaction_joined`   a transaction scope around a body: one session, and
  one end of it.
-/

namespace JobEngine

/-- Stages, and what is asked and heard at each. -/
structure Conduct (E : Effects) (σ : Type) where
  may : σ → E.Call → Prop
  hear : σ → (c : E.Call) → E.Answer c → σ

namespace Program

variable {E : Effects} {σ α β : Type} {κ : Conduct E σ}

/-- From a stage on the program asks only what it may, and where it ends `post` holds. -/
def Keeps (κ : Conduct E σ) (post : σ → α → Prop) : Program E α → σ → Prop
  | done a, s => post s a
  | call c k, s => κ.may s c ∧ ∀ a, (k a).Keeps κ post (κ.hear s c a)
  | crash, _ => True

variable {post post' : σ → α → Prop} {s : σ}

@[simp] theorem keeps_done (a : α) : (done a : Program E α).Keeps κ post s ↔ post s a := Iff.rfl

@[simp] theorem keeps_crash : (crash : Program E α).Keeps κ post s := trivial

theorem keeps_call {c : E.Call} {k : E.Answer c → Program E α} :
    (call c k).Keeps κ post s ↔ κ.may s c ∧ ∀ a, (k a).Keeps κ post (κ.hear s c a) := Iff.rfl

theorem keeps_bind {p : Program E α} {f : α → Program E β} {post : σ → β → Prop} :
    (p.bind f).Keeps κ post s ↔ p.Keeps κ (fun s a => (f a).Keeps κ post s) s := by
  induction p generalizing s with
  | done a => rfl
  | call c k ih =>
    rw [bind_call, keeps_call, keeps_call]
    exact and_congr_right fun _ => forall_congr' fun a => ih a
  | crash => exact Iff.rfl

theorem Keeps.mono {p : Program E α} (h : p.Keeps κ post s)
    (hpost : ∀ s a, post s a → post' s a) : p.Keeps κ post' s := by
  induction p generalizing s with
  | done a => exact hpost _ _ h
  | call c k ih => exact ⟨h.1, fun a => ih a (h.2 a)⟩
  | crash => trivial

end Program

/-! ## operations of the engine -/

namespace Run

open Program

variable {σ α β : Type} {κ : Conduct Engine σ} {s : σ}

/-- An operation keeps to a conduct; `post` tells its results and its failures. -/
abbrev Keeps (κ : Conduct Engine σ) (post : σ → Except JobError α → Prop) (x : Run α) (s : σ) :
    Prop :=
  Program.Keeps κ post x.run s

variable {post : σ → Except JobError β → Prop}

theorem keeps_bind {x : Run α} {f : α → Run β} :
    Run.Keeps κ post (x >>= f) s ↔
      Run.Keeps κ (fun s r => match r with
        | .ok a => Run.Keeps κ post (f a) s
        | .error e => post s (.error e)) x s := by
  unfold Run.Keeps
  rw [ExceptT.run_bind, bind_eq, Program.keeps_bind]
  refine iff_of_eq (congrArg (fun q => Program.Keeps κ q x.run s) ?_)
  funext s r
  cases r <;> rfl

theorem keeps_lift {p : Program Engine α} {post : σ → Except JobError α → Prop} :
    Run.Keeps κ post (ExceptT.lift p) s ↔ p.Keeps κ (fun s a => post s (.ok a)) s := by
  unfold Run.Keeps
  rw [ExceptT.run_lift]
  show (p.bind fun a => done (Except.ok a)).Keeps κ post s ↔ _
  rw [Program.keeps_bind]
  rfl

theorem keeps_liftM {p : Program Engine α} {post : σ → Except JobError α → Prop} :
    Run.Keeps κ post (liftM p) s ↔ p.Keeps κ (fun s a => post s (.ok a)) s := keeps_lift

@[simp] theorem keeps_pure {a : α} {post : σ → Except JobError α → Prop} :
    Run.Keeps κ post (pure a) s ↔ post s (.ok a) := Iff.rfl

@[simp] theorem keeps_throw {e : JobError} {post : σ → Except JobError α → Prop} :
    Run.Keeps κ post (throw e) s ↔ post s (.error e) := Iff.rfl

@[simp] theorem keeps_mk {p : Program Engine (Except JobError α)}
    {post : σ → Except JobError α → Prop} :
    Run.Keeps κ post (ExceptT.mk p) s ↔ p.Keeps κ post s := Iff.rfl

theorem keeps_check {ε : Type} {p : Program Engine (Except ε α)} {wrap : ε → JobError}
    {post : σ → Except JobError α → Prop} :
    Run.Keeps κ post (Run.check p wrap) s ↔
      p.Keeps κ (fun s r => post s (r.mapError wrap)) s := by
  unfold Run.check
  rw [keeps_mk, Program.keeps_bind]
  refine iff_of_eq (congrArg (fun q => Program.Keeps κ q p s) ?_)
  funext s r
  cases r <;> rfl

theorem keeps_rule {r : Except DomainError α} {post : σ → Except JobError α → Prop} :
    Run.Keeps κ post (Run.rule r) s ↔ post s (r.mapError .domain) := keeps_check

theorem keeps_ite {p : Prop} [Decidable p] {x y : Run β} :
    Run.Keeps κ post (if p then x else y) s ↔
      (p → Run.Keeps κ post x s) ∧ (¬ p → Run.Keeps κ post y s) := by
  split
  · next h => simp [h]
  · next h => simp [h]

end Run

/-! ## log lines -/

/-- Log lines may always be written, and mean nothing. -/
structure Conduct.Silent {σ : Type} (κ : Conduct Engine σ) : Prop where
  may (s : σ) (l : LogLine) : κ.may s (.log l)
  hear (s : σ) (l : LogLine) : κ.hear s (.log l) () = s

section
variable {σ α : Type} {κ : Conduct Engine σ} {s : σ}

theorem Conduct.Silent.keeps_log (hκ : κ.Silent) {l : LogLine} {post : σ → Unit → Prop} :
    (Run.log l).Keeps κ post s ↔ post s () := by
  show (κ.may s (.log l) ∧ ∀ a : Unit, post (κ.hear s (.log l) a) a) ↔ _
  constructor
  · intro h
    have h := h.2 ()
    rwa [hκ.hear] at h
  · intro h
    refine ⟨hκ.may s l, fun a => ?_⟩
    rwa [hκ.hear]

theorem Conduct.Silent.keeps_footprint (hκ : κ.Silent) {work : Run α} {operation : String}
    {post : σ → Except JobError α → Prop} (h : Run.Keeps κ post work s) :
    Run.Keeps κ post (Run.footprint operation work) s := by
  unfold Run.footprint
  rw [Run.keeps_mk, Program.bind_eq, Program.keeps_bind]
  refine Program.Keeps.mono h fun s r hr => ?_
  cases r with
  | ok a => exact hr
  | error e =>
    show ((Run.log _).bind fun _ => Program.done (Except.error e)).Keeps κ post s
    rw [Program.keeps_bind, hκ.keeps_log]
    exact hr

/-! ## transactions -/

/-- What may follow a body in the scope that opened session `n`: the end of the session, and then
`post`. -/
def Conduct.Finishes (κ : Conduct Engine σ) (n : SessionId) (post : σ → Except JobError α → Prop)
    (s : σ) : Except JobError α → Prop
  | .ok a => κ.may s (.store (.commit n)) ∧ post (κ.hear s (.store (.commit n)) (.ok ())) (.ok a) ∧
      ∀ e, post (κ.hear s (.store (.commit n)) (.error e)) (.error (.store e))
  | .error e => κ.may s (.store (.rollback n)) ∧
      ∀ r, post (κ.hear s (.store (.rollback n)) r) (.error e)

theorem Conduct.Silent.keeps_finish (hκ : κ.Silent) {ctx : Context} {n : SessionId}
    {r : Except JobError α} {post : σ → Except JobError α → Prop} (hctx : ctx.session = some n)
    (h : κ.Finishes n post s r) : Run.Keeps κ post (Scope.finish ⟨ctx, true⟩ r) s := by
  unfold Scope.finish
  rw [if_pos rfl]
  cases r with
  | ok a =>
    obtain ⟨hmay, hok, herr⟩ := h
    simp only [hctx]
    rw [Run.keeps_bind]
    refine ⟨hmay, fun r => ?_⟩
    cases r with
    | ok u => exact hok
    | error e => exact herr e
  | error e =>
    obtain ⟨hmay, hpost⟩ := h
    simp only [hctx]
    rw [Run.keeps_bind, Run.keeps_lift]
    refine ⟨hmay, fun r => ?_⟩
    cases r with
    | ok u => exact hpost (.ok u)
    | error e' =>
      show Run.Keeps κ post (liftM (Run.log _) >>= fun _ => throw e) _
      rw [Run.keeps_bind, Run.keeps_liftM, hκ.keeps_log]
      exact hpost (.error e')

/-- A scope of its own: a session is opened, the body runs in it, and the session is ended. -/
theorem Conduct.Silent.keeps_transaction (hκ : κ.Silent) {ctx : Context} {body : Context → Run α}
    {post : σ → Except JobError α → Prop} (hctx : ctx.session = none)
    (hmay : κ.may s (.store .begin))
    (herr : ∀ e, post (κ.hear s (.store .begin) (.error e)) (.error (.store e)))
    (hbody : ∀ n, Run.Keeps κ (κ.Finishes n post) (body { ctx with session := some n })
      (κ.hear s (.store .begin) (.ok n))) :
    Run.Keeps κ post (ctx.transaction body) s := by
  unfold Context.transaction Context.enter
  simp only [hctx]
  rw [Run.keeps_bind, Run.keeps_bind]
  refine ⟨hmay, fun r => ?_⟩
  cases r with
  | error e => exact herr e
  | ok n =>
    show Run.Keeps κ post (ExceptT.lift (body { ctx with session := some n }).run >>=
      fun result => Scope.finish ⟨{ ctx with session := some n }, true⟩ result) _
    rw [Run.keeps_bind, Run.keeps_lift]
    exact (hbody n).mono fun s r h => hκ.keeps_finish rfl h

/-- A scope that joins the session that is open adds nothing. -/
theorem transaction_joined {ctx : Context} {n : SessionId} (hctx : ctx.session = some n)
    (body : Context → Run α) : ctx.transaction body = body ctx := by
  unfold Context.transaction Context.enter
  simp only [hctx, pure_bind]
  apply ExceptT.ext
  rw [ExceptT.run_bind, ExceptT.run_lift, bind_map_left]
  exact Program.bind_done_right (body ctx).run

end

end JobEngine
