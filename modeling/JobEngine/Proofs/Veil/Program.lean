import JobEngine.Proofs.Veil.Store
import JobEngine.Simulation.World
import JobEngine.Worker.Lifecycle

/-!
# Programs that cannot tell secrets apart

Two programs are alike if they ask the same, go on alike with answers that look the same behind the
veil, and write the same lines.  What actions and notifiers are told may differ in secrets.

* `Program.Alike`, `Run.Alike`   the relation, and what it says of results;
* `alike_bind`, `Run.alike_bind`   it goes through "and then";
* `alike_update`, `alike_execute`, …   the operations of the engine on jobs that look the same.
-/

namespace JobEngine

/-- An answer behind the veil. -/
def EngineCall.veil : (c : EngineCall) → c.Answer → c.Answer
  | .store c, a => c.veil a
  | .clock, a | .publish _, a | .invoke _, a | .log _, a | .freshId, a | .pause _, a => a

def EngineCall.Guarded : EngineCall → Prop
  | .store c => c.Guarded
  | _ => True

/-- Both fail with one error, or both succeed with results that are related. -/
inductive SameEnd {ε α : Type} (R : α → α → Prop) : Except ε α → Except ε α → Prop
  | ok {a b : α} : R a b → SameEnd R (.ok a) (.ok b)
  | error (e : ε) : SameEnd R (.error e) (.error e)

theorem sameEnd_of_map {ε α β : Type} {f : α → β} {a b : Except ε α} (h : a.map f = b.map f) :
    SameEnd (fun x y => f x = f y) a b := by
  cases a <;> cases b <;> simp [Except.map] at h
  · exact h ▸ .error _
  · exact .ok h

theorem sameEnd_of_eq {ε α : Type} {a b : Except ε α} (h : a = b) : SameEnd Eq a b := by
  subst h
  cases a with
  | ok a => exact .ok rfl
  | error e => exact .error e

namespace Program

variable {α β : Type} {R R' : α → α → Prop} {S : β → β → Prop}

/-- Two programs do the same but for secrets, and end with results that are related. -/
inductive Alike (R : α → α → Prop) : Program Engine α → Program Engine α → Prop
  | done {a b : α} : R a b → Alike R (.done a) (.done b)
  | crash : Alike R .crash .crash
  | call {c : EngineCall} {k k' : c.Answer → Program Engine α} : c.Guarded →
    (∀ a b, c.veil a = c.veil b → Alike R (k a) (k' b)) → Alike R (.call c k) (.call c k')
  | insert {j j' : Job} {k k' : Except StoreError JobId → Program Engine α} : j.veil = j'.veil →
    (∀ a, Alike R (k a) (k' a)) →
    Alike R (.call (.store (.insert j)) k) (.call (.store (.insert j')) k')
  | publish {e e' : JobEvent} {k k' : Except NotifyError Unit → Program Engine α} :
    (∀ r, Alike R (k r) (k' r)) → Alike R (.call (.publish e) k) (.call (.publish e') k')
  | invoke {i i' : Invocation} {k k' : Option (Except ActionError Json) → Program Engine α} :
    (∀ r, Alike R (k r) (k' r)) → Alike R (.call (.invoke i) k) (.call (.invoke i') k')

variable {p q : Program Engine α} {f g : α → Program Engine β}

theorem alike_bind (h : p.Alike R q) (hf : ∀ a b, R a b → (f a).Alike S (g b)) :
    (p.bind f).Alike S (q.bind g) := by
  induction h with
  | done hab => exact hf _ _ hab
  | crash => exact .crash
  | call hc _ ih => exact .call hc fun a b hab => ih a b hab
  | insert hj _ ih => exact .insert hj ih
  | publish _ ih => exact .publish ih
  | invoke _ ih => exact .invoke ih

theorem Alike.mono (h : p.Alike R q) (hR : ∀ a b, R a b → R' a b) : p.Alike R' q := by
  induction h with
  | done hab => exact .done (hR _ _ hab)
  | crash => exact .crash
  | call hc _ ih => exact .call hc ih
  | insert hj _ ih => exact .insert hj ih
  | publish _ ih => exact .publish ih
  | invoke _ ih => exact .invoke ih

theorem alike_store (c : StoreCall) (hc : c.Guarded) :
    (Run.store c).Alike (fun a b => c.veil a = c.veil b) (Run.store c) :=
  .call hc fun _ _ hab => .done hab

theorem alike_clock : Run.clock.Alike Eq Run.clock := .call trivial fun _ _ hab => .done hab

theorem alike_freshId : Run.freshId.Alike Eq Run.freshId := .call trivial fun _ _ hab => .done hab

theorem alike_log (l : LogLine) : (Run.log l).Alike Eq (Run.log l) :=
  .call trivial fun _ _ _ => .done rfl

end Program

namespace Run

variable {α β ε : Type} {R : α → α → Prop} {S : β → β → Prop}

abbrev Alike (R : α → α → Prop) (x y : Run α) : Prop := Program.Alike (SameEnd R) x.run y.run

variable {x y : Run α} {f g : α → Run β} {p q : Program Engine α}

theorem alike_bind (h : Run.Alike R x y) (hf : ∀ a b, R a b → Run.Alike S (f a) (g b)) :
    Run.Alike S (x >>= f) (y >>= g) := by
  unfold Run.Alike
  rw [ExceptT.run_bind, ExceptT.run_bind]
  refine Program.alike_bind h fun r r' hr => ?_
  cases hr with
  | ok hab => exact hf _ _ hab
  | error e => exact .done (.error e)

theorem alike_pure {a b : α} (h : R a b) : Run.Alike R (pure a) (pure b) := .done (.ok h)

theorem alike_throw (e : JobError) : Run.Alike R (throw e) (throw e) := .done (.error e)

theorem alike_lift (h : p.Alike R q) : Run.Alike R (ExceptT.lift p) (ExceptT.lift q) := by
  unfold Run.Alike
  rw [ExceptT.run_lift, ExceptT.run_lift]
  exact Program.alike_bind h fun _ _ hab => .done (.ok hab)

theorem alike_check {p q : Program Engine (Except ε α)} {wrap : ε → JobError}
    (h : p.Alike (SameEnd R) q) : Run.Alike R (Run.check p wrap) (Run.check q wrap) := by
  refine Program.alike_bind h fun r r' hr => ?_
  cases hr with
  | ok hab => exact .done (.ok hab)
  | error e => exact .done (.error _)

theorem alike_rule {r r' : Except DomainError α} (h : SameEnd R r r') :
    Run.Alike R (Run.rule r) (Run.rule r') := alike_check (.done h)

theorem alike_log (l : LogLine) : Run.Alike Eq (liftM (Run.log l)) (liftM (Run.log l)) :=
  alike_lift (Program.alike_log l)

theorem alike_publish (e e' : JobEvent) : Run.Alike Eq (Run.publish e) (Run.publish e') :=
  alike_check (.publish fun _ => .done (sameEnd_of_eq rfl))

end Run

/-- Jobs, if there are any, look the same. -/
abbrev SameJob (o o' : Option Job) : Prop := o.map Job.veil = o'.map Job.veil

theorem SameJob.cases {o o' : Option Job} (h : SameJob o o') :
    (o = none ∧ o' = none) ∨ ∃ j j', o = some j ∧ o' = some j' ∧ j.veil = j'.veil := by
  cases o with
  | none => exact Or.inl ⟨rfl, Option.map_eq_none_iff.mp h.symm⟩
  | some j =>
    obtain ⟨j', rfl, hj⟩ := Option.map_eq_some_iff.mp h.symm
    exact Or.inr ⟨j, j', rfl, rfl, hj.symm⟩

/-! ## transactions -/

section
variable {α : Type} {R : α → α → Prop} (ctx : Context) (id : JobId)

theorem alike_load : Run.Alike SameJob (ctx.load id) (ctx.load id) := by
  unfold Context.load
  cases ctx.session with
  | some s =>
    exact Run.alike_check ((Program.alike_store (.get s id ctx.inLock) trivial).mono
      fun _ _ => sameEnd_of_map)
  | none =>
    exact Run.alike_check ((Program.alike_store (.read id) trivial).mono fun _ _ => sameEnd_of_map)

theorem alike_write {c : Changes} (hc : c.Guarded) :
    Run.Alike Eq (ctx.write id c) (ctx.write id c) := by
  unfold Context.write
  cases ctx.session with
  | some s =>
    exact Run.alike_check ((Program.alike_store (.update s id c) hc).mono fun _ _ => sameEnd_of_eq)
  | none =>
    exact Run.alike_check ((Program.alike_store (.write id c) hc).mono fun _ _ => sameEnd_of_eq)

theorem alike_enter : Run.Alike Eq ctx.enter ctx.enter := by
  unfold Context.enter
  cases ctx.session with
  | some s => exact Run.alike_pure rfl
  | none =>
    refine Run.alike_bind
      (Run.alike_check ((Program.alike_store .begin trivial).mono fun _ _ => sameEnd_of_eq)) ?_
    rintro s _ rfl
    exact Run.alike_pure rfl

theorem alike_finish (s : Scope) {r r' : Except JobError α} (h : SameEnd R r r') :
    Run.Alike R (s.finish r) (s.finish r') := by
  unfold Scope.finish
  split
  · cases s.ctx.session with
    | none => exact .done h
    | some session =>
      cases h with
      | ok hab =>
        exact Run.alike_bind
          (Run.alike_check ((Program.alike_store (.commit session) trivial).mono
            fun _ _ => sameEnd_of_eq))
          fun _ _ _ => Run.alike_pure hab
      | error e =>
        refine Run.alike_bind (Run.alike_lift (Program.alike_store (.rollback session) trivial)) ?_
        rintro r r' (rfl : r = r')
        cases r with
        | ok u => exact Run.alike_throw e
        | error r => exact Run.alike_bind (Run.alike_log _) fun _ _ _ => Run.alike_throw e
  · exact .done h

theorem alike_transaction {body body' : Context → Run α}
    (h : ∀ c, Run.Alike R (body c) (body' c)) :
    Run.Alike R (ctx.transaction body) (ctx.transaction body') := by
  unfold Context.transaction
  refine Run.alike_bind (alike_enter ctx) ?_
  rintro scope _ rfl
  exact Run.alike_bind (Run.alike_lift (h scope.ctx)) fun r r' hr => alike_finish scope hr

theorem alike_footprint {operation : String} {x y : Run α} (h : Run.Alike R x y) :
    Run.Alike R (Run.footprint operation x) (Run.footprint operation y) := by
  unfold Run.footprint
  refine Program.alike_bind h fun r r' hr => ?_
  cases hr with
  | ok hab => exact .done (.ok hab)
  | error e => exact Program.alike_bind (Program.alike_log _) fun _ _ _ => .done (.error e)

/-! ## records -/

theorem alike_update {c : Changes} (hc : c.Guarded) :
    Run.Alike Eq (ctx.update id c) (ctx.update id c) := by
  unfold Context.update
  refine Run.alike_bind (Run.alike_lift Program.alike_clock) ?_
  rintro now _ rfl
  refine alike_transaction ctx fun ctx => ?_
  refine Run.alike_bind (alike_write ctx id (c := { c with updated := some now }) hc) ?_
  rintro rows _ rfl
  split
  · exact Run.alike_throw _
  · exact Run.alike_pure rfl

theorem alike_fetch : Run.Alike SameJob (ctx.fetch id) (ctx.fetch id) := by
  unfold Context.fetch
  refine Program.alike_bind (alike_load ctx.locking id) fun r r' hr => ?_
  cases hr with
  | ok hjob =>
    rcases hjob.cases with ⟨rfl, rfl⟩ | ⟨j, j', rfl, rfl, _⟩
    · exact .done (.error _)
    · exact .done (.ok hjob)
  | error e =>
    dsimp only
    split
    · exact Program.alike_bind (Program.alike_log _) fun _ _ _ => .done (.ok rfl)
    · exact .done (.error e)

theorem alike_become (old new : Status) :
    Run.Alike (fun a b => a = new ∧ b = new) (Run.rule (old.become new))
      (Run.rule (old.become new)) := by
  refine Run.alike_rule ?_
  cases h : old.become new with
  | error e => exact .error e
  | ok s =>
    obtain rfl := (Status.become_eq_ok_iff.mp h).2
    exact .ok ⟨rfl, rfl⟩

section
variable {j j' : Job} (h : j.veil = j'.veil)
include h

theorem alike_prepare : Run.Alike (fun _ _ => True) (ctx.prepare j) (ctx.prepare j') := by
  obtain ⟨p, rfl, -, -⟩ := Job.exists_params h
  unfold Context.prepare
  refine Run.alike_bind (alike_become j.status .running) ?_
  rintro _ _ ⟨rfl, rfl⟩
  refine Run.alike_bind (alike_update ctx j.id (Changes.guarded_of_status rfl rfl)) ?_
  intro _ _ _
  exact Run.alike_rule (.ok trivial)

theorem alike_reset : Run.Alike Eq (ctx.reset j) (ctx.reset j') := by
  obtain ⟨p, rfl, -, -⟩ := Job.exists_params h
  unfold Context.reset
  refine Run.alike_bind (alike_become j.status .pending) ?_
  rintro _ _ ⟨rfl, rfl⟩
  exact alike_update ctx j.id (Changes.guarded_of_status rfl rfl)

end

theorem alike_claim :
    Run.Alike (fun o o' => o.isSome = o'.isSome) (ctx.claim id) (ctx.claim id) := by
  unfold Context.claim
  refine Run.alike_bind (Run.alike_lift (alike_fetch ctx id)) fun r r' hr => ?_
  cases hr with
  | ok hjob =>
    rcases hjob.cases with ⟨rfl, rfl⟩ | ⟨j, j', rfl, rfl, hj⟩
    · exact Run.alike_pure rfl
    · obtain ⟨p, rfl, -, -⟩ := Job.exists_params hj
      dsimp only
      split
      · rw [map_eq_pure_bind, map_eq_pure_bind]
        exact Run.alike_bind (alike_prepare ctx hj) fun _ _ _ => Run.alike_pure rfl
      · exact Run.alike_bind (Run.alike_log _) fun _ _ _ => Run.alike_pure rfl
  | error e =>
    cases e with
    | notFound => exact Run.alike_bind (Run.alike_log _) fun _ _ _ => Run.alike_pure rfl
    | _ => exact Run.alike_throw _

theorem alike_putBack : Run.Alike Eq (ctx.putBack id) (ctx.putBack id) := by
  unfold Context.putBack
  refine Run.alike_bind (alike_fetch ctx id) fun o o' hjob => ?_
  rcases SameJob.cases hjob with ⟨rfl, rfl⟩ | ⟨j, j', rfl, rfl, hj⟩
  · exact Run.alike_pure rfl
  · have hreset := alike_reset ctx hj
    obtain ⟨p, rfl, -, -⟩ := Job.exists_params hj
    dsimp only
    split
    · exact Run.alike_bind hreset fun _ _ _ => Run.alike_log _
    · exact Run.alike_pure rfl

/-! ## attempts -/

section
variable {v v' : Job} (h : v.veil = v'.veil)
include h

theorem alike_recordSuccess (result : Json) :
    Run.Alike Eq (ctx.recordSuccess v result) (ctx.recordSuccess v' result) := by
  obtain ⟨p, rfl, hp, -⟩ := Job.exists_params h
  unfold Context.recordSuccess
  refine Run.alike_bind (Run.alike_publish _ _) fun _ _ _ => ?_
  refine Run.alike_bind (alike_become v.status .finished) ?_
  rintro _ _ ⟨rfl, rfl⟩
  rw [show ({ v with params := p } : Job).params.redact = v.params.redact from hp]
  refine Run.alike_bind (alike_update ctx v.id (Changes.guarded_of_params rfl)) fun _ _ _ => ?_
  exact Run.alike_bind (Run.alike_log _) fun _ _ _ => Run.alike_pure rfl

theorem alike_recordFailure (message : String) :
    Run.Alike Eq (ctx.recordFailure v message) (ctx.recordFailure v' message) := by
  obtain ⟨p, rfl, hp, -⟩ := Job.exists_params h
  unfold Context.recordFailure
  refine Run.alike_bind (Run.alike_log _) fun _ _ _ => ?_
  refine Run.alike_bind (Run.alike_publish _ _) fun _ _ _ => ?_
  refine Run.alike_bind (Run.alike_lift Program.alike_clock) ?_
  rintro now _ rfl
  rw [show ({ v with params := p } : Job).onFailure now = v.onFailure now from rfl]
  match v.onFailure now with
  | none => exact Run.alike_lift .crash
  | some (.exhausted attempt) =>
    refine Run.alike_bind (alike_become v.status .error) ?_
    rintro _ _ ⟨rfl, rfl⟩
    rw [show ({ v with params := p } : Job).params.redact = v.params.redact from hp]
    refine Run.alike_bind (alike_update ctx v.id (Changes.guarded_of_params rfl)) fun _ _ _ => ?_
    exact Run.alike_bind (Run.alike_log _) fun _ _ _ => Run.alike_pure rfl
  | some (.retry attempt runAt) =>
    refine Run.alike_bind (alike_become v.status .pending) ?_
    rintro _ _ ⟨rfl, rfl⟩
    refine Run.alike_bind (alike_update ctx v.id (Changes.guarded_of_status rfl rfl))
      fun _ _ _ => ?_
    exact Run.alike_bind (Run.alike_log _) fun _ _ _ => Run.alike_pure rfl

variable (c : Controller) (deadline : Nat)

theorem alike_invoke : (c.invoke v deadline).Alike Eq (c.invoke v' deadline) := by
  obtain ⟨p, rfl, -, -⟩ := Job.exists_params h
  unfold Controller.invoke
  dsimp only
  split
  · refine Program.Alike.invoke fun r => ?_
    cases r with
    | some result => exact .done rfl
    | none => exact .done rfl
  · exact .done rfl

/-- The line that an attempt begins with shows no secret. -/
theorem alike_execute :
    Run.Alike Eq (c.execute ctx v deadline) (c.execute ctx v' deadline) := by
  have hinvoke := alike_invoke h c deadline
  have hsuccess := alike_recordSuccess ctx h
  have hfailure := alike_recordFailure ctx h
  obtain ⟨p, rfl, hp, -⟩ := Job.exists_params h
  unfold Controller.execute
  refine Run.alike_bind (alike_become v.status .finished) fun _ _ _ => ?_
  rw [show ({ v with params := p } : Job).params.redact = v.params.redact from hp]
  refine Run.alike_bind (Run.alike_log _) fun _ _ _ => ?_
  refine Run.alike_bind (Run.alike_publish _ _) fun _ _ _ => ?_
  refine Run.alike_bind (Run.alike_lift hinvoke) ?_
  rintro how _ rfl
  cases how with
  | ok result => exact hsuccess result
  | error e => exact hfailure e.message

end

theorem alike_runUnit (c : Controller) (deadline : Nat) :
    Run.Alike Eq (c.runUnit ctx id deadline) (c.runUnit ctx id deadline) := by
  unfold Controller.runUnit
  refine Run.alike_bind (alike_transaction ctx fun ctx => alike_claim ctx id) fun o o' ho => ?_
  match o, o' with
  | none, none => exact Run.alike_pure rfl
  | none, some _ | some _, none => simp at ho
  | some _, some _ =>
    refine Run.alike_bind (alike_load ctx id) fun o o' hjob => ?_
    rcases SameJob.cases hjob with ⟨rfl, rfl⟩ | ⟨j, j', rfl, rfl, hj⟩
    · exact Run.alike_throw _
    · exact Run.alike_bind (alike_execute ctx hj c deadline) fun _ _ _ => Run.alike_pure rfl

end

/-! ## listings and new jobs -/

theorem alike_ids (q : Query) : Run.Alike Eq (Run.ids q) (Run.ids q) := by
  unfold Run.ids Run.list
  refine Run.alike_bind (Run.alike_check ((Program.alike_store (.list q) trivial).mono
    fun _ _ => sameEnd_of_map)) fun page page' hpage => ?_
  have hids (page : Page) : page.veil.items.map Job.id = page.items.map Job.id := by
    show (page.items.map Job.veil).map Job.id = _
    rw [List.map_map]
    exact List.map_congr_left fun j _ => j.veil_id
  rw [← hids page, hpage, hids]
  exact Run.alike_pure rfl

theorem alike_due (limit : UInt64) (order : SortOrder) :
    Run.Alike Eq (Run.due limit order) (Run.due limit order) := by
  unfold Run.due
  refine Run.alike_bind (Run.alike_lift Program.alike_clock) ?_
  rintro now _ rfl
  exact alike_ids _

theorem sameEnd_toJob (request : NewJob) {p : Json} (hp : request.params.redact = p.redact)
    (id : JobId) (now : Instant) :
    SameEnd (fun j j' => j.veil = j'.veil) (request.toJob id now)
      ({ request with params := p }.toJob id now) := by
  unfold NewJob.toJob
  dsimp only
  split
  · exact .error _
  split
  · exact .error _
  · exact .ok (by simp [Job.veil, Status.terminal, hp])

theorem alike_create (c : Controller) (request : NewJob) {p : Json}
    (hp : request.params.redact = p.redact) :
    Run.Alike (fun _ _ => True) (c.create request) (c.create { request with params := p }) := by
  unfold Controller.create
  dsimp only
  split
  · exact Run.alike_throw _
  refine Run.alike_bind (Run.alike_lift Program.alike_freshId) ?_
  rintro id _ rfl
  refine Run.alike_bind (Run.alike_lift Program.alike_clock) ?_
  rintro now _ rfl
  refine Run.alike_bind (Run.alike_rule (sameEnd_toJob request hp id now)) fun j j' hj => ?_
  have hinsert : Run.Alike Eq (Run.check (Run.store (.insert j)) JobError.store)
      (Run.check (Run.store (.insert j')) JobError.store) :=
    Run.alike_check (.insert hj fun a => .done (sameEnd_of_eq rfl))
  refine Run.alike_bind hinsert fun _ _ _ => ?_
  obtain ⟨p, rfl, -, -⟩ := Job.exists_params hj
  exact Run.alike_bind (Run.alike_log _) fun _ _ _ => Run.alike_pure trivial

end JobEngine
