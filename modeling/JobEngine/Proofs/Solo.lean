import JobEngine.Proofs.Conduct
import JobEngine.Proofs.Pool.Basic
import JobEngine.Proofs.Store.Locking

/-!
# A program that has the engine to itself

Nobody else is at the store, the notifiers take every event, and the clock shows what it likes.
Then a program has one run, if it does not break down and waits for nobody.

* `Calm`              what the program meets;
* `Program.alone`     its run: what it hears, its result and the store behind it;
* `runs_bind`, `goes_bind`   a run of one program after another;
* `Memory.rest`, `Memory.busy`   a store without sessions, and with one;
* `goes_transaction`, `goes_update`   a transaction of its own, and a change of a row in one;
* `published`, `invoked`     the events and the invocations among the questions.
-/

namespace JobEngine

structure Calm where
  /-- The time at the `n`-th question. -/
  clock : Nat → Instant
  /-- What an action answers; nothing if it overruns its deadline. -/
  action : Option (Except ActionError Json)
  fresh : JobId

/-- The answer to the `n`-th question; nothing if the lock of a row is held. -/
def Calm.answer (w : Calm) (n : Nat) (m : Memory) :
    (c : EngineCall) → Option (c.Answer × Memory)
  | .store c => let x := m.perform c; x.1.map fun a => (a, x.2)
  | .clock => some (w.clock n, m)
  | .publish _ => some (.ok (), m)
  | .invoke _ => some (w.action, m)
  | .log _ => some ((), m)
  | .freshId => some (w.fresh, m)
  | .pause _ => some ((), m)

structure Course (α : Type) where
  heard : List Heard
  result : α
  memory : Memory

def Course.behind {α : Type} (h : Heard) (x : Course α) : Course α :=
  { x with heard := h :: x.heard }

/-- The run of a program from its `n`-th question on. -/
def Program.alone {α : Type} (w : Calm) :
    Program Engine α → Nat → Memory → Option (Course α)
  | done a, _, m => some ⟨[], a, m⟩
  | call c k, n, m =>
    (w.answer n m c).bind fun x => ((k x.1).alone w (n + 1) x.2).map (.behind ⟨c, x.1⟩)
  | crash, _, _ => none

section
variable {α β : Type} {w : Calm} {n : Nat} {m m₁ m' : Memory} {hs hs' : List Heard}

/-- The program hears `hs`, ends with `a` and leaves the store `m'`. -/
def Program.Runs (w : Calm) (n : Nat) (m : Memory) (p : Program Engine α)
    (hs : List Heard) (a : α) (m' : Memory) : Prop :=
  p.alone w n m = some ⟨hs, a, m'⟩

namespace Program

theorem runs_done (a : α) : (done a : Program Engine α).Runs w n m [] a m := rfl

theorem Runs.of_done {a r : α} (h : (done a : Program Engine α).Runs w n m hs r m') :
    hs = [] ∧ r = a ∧ m' = m := by
  obtain ⟨rfl, rfl, rfl⟩ := Course.mk.inj (Option.some.inj h)
  exact ⟨rfl, rfl, rfl⟩

theorem runs_call {c : EngineCall} {k : c.Answer → Program Engine α} {a : c.Answer} {r : α}
    (h : w.answer n m c = some (a, m₁)) (hk : (k a).Runs w (n + 1) m₁ hs r m') :
    (call c k : Program Engine α).Runs w n m (⟨c, a⟩ :: hs) r m' := by
  unfold Runs at hk ⊢
  show (w.answer n m c).bind _ = _
  rw [h]
  show ((k a).alone w (n + 1) m₁).map _ = _
  rw [hk]
  rfl

theorem Runs.of_call {c : EngineCall} {k : c.Answer → Program Engine α} {r : α}
    (h : (call c k : Program Engine α).Runs w n m hs r m') :
    ∃ a m₁ hs', w.answer n m c = some (a, m₁) ∧ hs = ⟨c, a⟩ :: hs' ∧
      (k a).Runs w (n + 1) m₁ hs' r m' := by
  obtain ⟨⟨a, m₁⟩, ha, h⟩ := Option.bind_eq_some_iff.mp h
  obtain ⟨⟨hs', r, m'⟩, hk, e⟩ := Option.map_eq_some_iff.mp h
  obtain ⟨rfl, rfl, rfl⟩ := Course.mk.inj e
  exact ⟨a, m₁, hs', ha, rfl, hk⟩

theorem runs_bind {p : Program Engine α} {f : α → Program Engine β} {a : α} {r : β}
    (hp : p.Runs w n m hs a m₁) (hf : (f a).Runs w (n + hs.length) m₁ hs' r m') :
    (p.bind f).Runs w n m (hs ++ hs') r m' := by
  induction p generalizing n m hs with
  | done b =>
    obtain ⟨rfl, rfl, rfl⟩ := hp.of_done
    exact hf
  | call c k ih =>
    obtain ⟨b, m₂, hs₂, hb, rfl, hk⟩ := hp.of_call
    refine runs_call hb (ih b hk ?_)
    rw [List.length_cons, Nat.add_comm _ 1, ← Nat.add_assoc] at hf
    exact hf
  | crash => simp [Runs, alone] at hp

theorem runs_bind_done {p : Program Engine α} {f : α → Program Engine β} {a : α} {r : β}
    (hp : p.Runs w n m hs a m') (hf : f a = done r) : (p.bind f).Runs w n m hs r m' := by
  have h : (p.bind f).Runs w n m (hs ++ []) r m' := runs_bind hp (hf ▸ runs_done r)
  rwa [List.append_nil] at h

theorem runs_store {c : StoreCall} {a : c.Answer} (h : m.perform c = (some a, m')) :
    (Run.store c).Runs w n m [⟨.store c, a⟩] a m' := by
  refine runs_call ?_ (runs_done a)
  show (m.perform c).1.map (fun a => (a, (m.perform c).2)) = _
  rw [h]
  rfl

theorem runs_log (l : LogLine) : (Run.log l).Runs w n m [⟨.log l, ()⟩] () m :=
  runs_call rfl (runs_done _)

end Program

/-! ## operations of the engine -/

namespace Run

open Program

/-- The operation hears `hs`, ends as stated and leaves the store `m'`. -/
abbrev Goes (w : Calm) (n : Nat) (m : Memory) (x : Run α) (hs : List Heard)
    (r : Except JobError α) (m' : Memory) : Prop :=
  x.run.Runs w n m hs r m'

theorem goes_pure (a : α) : (pure a : Run α).Goes w n m [] (.ok a) m := rfl

theorem goes_bind {x : Run α} {f : α → Run β} {a : α} {r : Except JobError β}
    (hx : x.Goes w n m hs (.ok a) m₁) (hf : (f a).Goes w (n + hs.length) m₁ hs' r m') :
    (x >>= f).Goes w n m (hs ++ hs') r m' := by
  unfold Goes
  rw [ExceptT.run_bind, bind_eq]
  exact runs_bind hx hf

theorem goes_map {x : Run α} {a : α} (f : α → β) (h : x.Goes w n m hs (.ok a) m') :
    (f <$> x : Run β).Goes w n m hs (.ok (f a)) m' := by
  rw [map_eq_pure_bind]
  have h := goes_bind (f := fun a => pure (f a)) h (goes_pure (f a))
  rwa [List.append_nil] at h

theorem goes_lift {p : Program Engine α} {a : α} (hp : p.Runs w n m hs a m') :
    Run.Goes w n m (ExceptT.lift p) hs (.ok a) m' :=
  runs_bind_done hp rfl

theorem goes_check {ε : Type} {p : Program Engine (Except ε α)} {wrap : ε → JobError} {a : α}
    (hp : p.Runs w n m hs (.ok a) m') : (Run.check p wrap).Goes w n m hs (.ok a) m' :=
  runs_bind_done hp rfl

theorem goes_rule {r : Except DomainError α} {a : α} (h : r = .ok a) :
    (Run.rule r).Goes w n m [] (.ok a) m := by
  subst h
  rfl

theorem goes_log (l : LogLine) :
    Run.Goes w n m (liftM (Run.log l)) [⟨.log l, ()⟩] (.ok ()) m := goes_lift (runs_log l)

theorem goes_clock : Run.Goes w n m (liftM Run.clock) [⟨.clock, w.clock n⟩] (.ok (w.clock n)) m :=
  goes_lift (runs_call rfl (runs_done _))

theorem goes_publish (e : JobEvent) :
    (Run.publish e).Goes w n m [⟨.publish e, .ok ()⟩] (.ok ()) m :=
  goes_check (runs_call rfl (runs_done _))

theorem goes_footprint {x : Run α} {operation : String} {a : α}
    (h : x.Goes w n m hs (.ok a) m') : (Run.footprint operation x).Goes w n m hs (.ok a) m' :=
  runs_bind_done h rfl

end Run

/-! ## a store with one session -/

namespace Memory

/-- A store without sessions. -/
def rest (rows : Table JobId Job) (k : SessionId) : Memory := { rows, nextSession := k }

/-- A store with the one session `k`, which has at most one row. -/
def busy (rows : Table JobId Job) (k : SessionId) (own : Session) : Memory where
  rows := rows
  locks := own.held.map fun id => (id, k)
  sessions := [(k, own)]
  nextSession := k + 1

variable {rows : Table JobId Job} {k : SessionId} {own : Session} {id : JobId} {r j : Job}

theorem Quiet.eq_rest (h : m.Quiet) : m = rest m.rows m.nextSession := by
  obtain ⟨rows, locks, sessions, k⟩ := m
  obtain rfl : locks = [] := h.no_lock
  obtain rfl : sessions = [] := h.no_session
  rfl

theorem session_busy : (busy rows k own).session k = own :=
  session_of_get? ((Table.get?_cons ..).trans (if_pos rfl))

theorem acquire_busy (hr : rows.get? id = some r) :
    (busy rows k {}).acquire k id = (.held, busy rows k ⟨[], [id]⟩) := by
  unfold acquire
  rw [session_busy]
  simp [busy, Table.contains, hr, Table.set]

theorem get_busy (hr : rows.get? id = some r) :
    (busy rows k {}).get k id true = (some (.ok (some r)), busy rows k ⟨[], [id]⟩) := by
  unfold get
  rw [acquire_busy hr]
  show (some (Except.ok ((busy rows k ⟨[], [id]⟩).current k id)), _) = _
  unfold current
  rw [session_busy]
  show (some (Except.ok (rows.get? id)), _) = _
  rw [hr]

theorem update_busy {held : List JobId} {c : Changes} (hr : rows.get? id = some r)
    (hheld : held = [] ∨ held = [id]) (hap : c.apply r = .ok j) :
    (busy rows k ⟨[], held⟩).update k id c
      = (some (.ok 1), busy rows k ⟨[(id, j)], [id]⟩) := by
  have hacquire : (busy rows k ⟨[], held⟩).acquire k id = (.held, busy rows k ⟨[], [id]⟩) := by
    rcases hheld with rfl | rfl
    · exact acquire_busy hr
    · unfold acquire
      rw [session_busy]
      exact if_pos (List.mem_singleton.mpr rfl)
  have hcurrent : (busy rows k ⟨[], [id]⟩).current k id = some r := by
    unfold current
    rw [session_busy]
    exact hr
  unfold update
  rw [hacquire]
  simp only [hcurrent, hap, session_busy]
  simp [busy, Table.set]

theorem close_busy : (busy rows k own).close k = rest rows (k + 1) := by
  have hlocks : ((own.held.map fun id => (id, k)).filter fun e =>
      !(decide (e.1 ∈ own.held) && decide (e.2 = k))) = [] := by
    rw [List.filter_eq_nil_iff]
    intro e he
    obtain ⟨id, hid, rfl⟩ := List.mem_map.mp he
    simp [hid]
  unfold close
  rw [session_busy]
  show Memory.mk rows (List.filter _ (own.held.map _)) (Table.erase k [(k, own)]) (k + 1) = _
  rw [hlocks]
  simp [Table.erase, rest]

theorem commit_busy : (busy rows k own).commit k = rest (own.staged.setAll rows) (k + 1) := by
  unfold commit
  rw [session_busy]
  exact close_busy

end Memory

/-! ## what is published and invoked -/

def EngineCall.event? : EngineCall → Option JobEvent
  | .publish e => some e
  | _ => none

def EngineCall.invocation? : EngineCall → Option Invocation
  | .invoke i => some i
  | _ => none

def published (hs : List Heard) : List JobEvent := hs.filterMap fun h => h.1.event?

def invoked (hs : List Heard) : List Invocation := hs.filterMap fun h => h.1.invocation?

@[simp] theorem published_append (hs hs' : List Heard) :
    published (hs ++ hs') = published hs ++ published hs' := List.filterMap_append ..

@[simp] theorem invoked_append (hs hs' : List Heard) :
    invoked (hs ++ hs') = invoked hs ++ invoked hs' := List.filterMap_append ..

/-- Nothing is published and no action invoked. -/
def Mute (hs : List Heard) : Prop := published hs = [] ∧ invoked hs = []

/-! ## changing a row -/

section
open Memory Program Run
variable {rows : Table JobId Job} {k : SessionId} {id : JobId} {r j : Job} {ctx : Context}

/-- A scope of its own: a session is opened, and what the body has staged is filed. -/
theorem goes_transaction {rows' : Table JobId Job} {own : Session} {body : Context → Run α} {a : α}
    (hctx : ctx.session = none)
    (hbody : (body { ctx with session := some k }).Goes w (n + 1) (busy rows k {}) hs (.ok a)
      (busy rows k own))
    (hheard : hs' = ⟨.store .begin, .ok k⟩ :: (hs ++ [⟨.store (.commit k), .ok ()⟩]))
    (hrows : rows' = own.staged.setAll rows) :
    (ctx.transaction body).Goes w n (rest rows k) hs' (.ok a) (rest rows' (k + 1)) := by
  subst hheard hrows
  have henter : (ctx.enter).Goes w n (rest rows k) [⟨.store .begin, .ok k⟩]
      (.ok ⟨{ ctx with session := some k }, true⟩) (busy rows k {}) := by
    unfold Context.enter
    simp only [hctx]
    exact goes_bind (goes_check (p := Run.store .begin) (runs_store rfl)) (goes_pure _)
  have hcommit : (busy rows k own).perform (.commit k)
      = (some (.ok ()), rest (own.staged.setAll rows) (k + 1)) :=
    congrArg (Prod.mk (some (Except.ok ()))) commit_busy
  have hfinish : Run.Goes w (n + 1 + hs.length) (busy rows k own)
      (Scope.finish ⟨{ ctx with session := some k }, true⟩ (.ok a))
      [⟨.store (.commit k), .ok ()⟩] (.ok a) (rest (own.staged.setAll rows) (k + 1)) :=
    goes_bind (goes_check (p := Run.store (.commit k)) (runs_store hcommit)) (goes_pure a)
  unfold Context.transaction
  have h := goes_bind (f := fun scope : Scope => ExceptT.lift (body scope.ctx).run >>= scope.finish)
    henter (goes_bind (goes_lift hbody) hfinish)
  exact h

theorem goes_update_joined {held : List JobId} {c : Changes} (hctx : ctx.session = some k)
    (hr : rows.get? id = some r) (hheld : held = [] ∨ held = [id])
    (hap : Changes.apply { c with updated := some (w.clock n) } r = .ok j) :
    (ctx.update id c).Goes w n (busy rows k ⟨[], held⟩)
      [⟨.clock, w.clock n⟩,
        ⟨.store (.update k id { c with updated := some (w.clock n) }), .ok 1⟩]
      (.ok ()) (busy rows k ⟨[(id, j)], [id]⟩) := by
  have hwrite : (ctx.write id { c with updated := some (w.clock n) }).Goes w (n + 1)
      (busy rows k ⟨[], held⟩)
      [⟨.store (.update k id { c with updated := some (w.clock n) }), .ok 1⟩]
      (.ok 1) (busy rows k ⟨[(id, j)], [id]⟩) := by
    unfold Context.write
    simp only [hctx]
    exact goes_check (p := Run.store (.update k id _)) (runs_store (update_busy hr hheld hap))
  unfold Context.update
  refine goes_bind goes_clock ?_
  rw [transaction_joined hctx]
  exact goes_bind hwrite (goes_pure ())

/-- What is heard of a change of a row in a transaction of its own. -/
def changing (k : SessionId) (id : JobId) (c : Changes) (t : Instant) : List Heard :=
  [⟨.clock, t⟩, ⟨.store .begin, .ok k⟩,
    ⟨.store (.update k id { c with updated := some t }), .ok 1⟩, ⟨.store (.commit k), .ok ()⟩]

theorem goes_update {c : Changes} (hctx : ctx.session = none) (hr : rows.get? id = some r)
    (hap : Changes.apply { c with updated := some (w.clock n) } r = .ok j) :
    (ctx.update id c).Goes w n (rest rows k) (changing k id c (w.clock n)) (.ok ())
      (rest (rows.set id j) (k + 1)) := by
  have hwrite : (Context.write { ctx with session := some k } id
      { c with updated := some (w.clock n) }).Goes w (n + 1 + 1) (busy rows k {})
      [⟨.store (.update k id { c with updated := some (w.clock n) }), .ok 1⟩]
      (.ok 1) (busy rows k ⟨[(id, j)], [id]⟩) :=
    goes_check (p := Run.store (.update k id _)) (runs_store (update_busy hr (Or.inl rfl) hap))
  unfold Context.update
  refine goes_bind goes_clock ?_
  exact goes_transaction hctx (goes_bind hwrite (goes_pure ())) rfl rfl

end

end

end JobEngine
