import JobEngine.Proofs.Pool.Schedule
import JobEngine.Proofs.Veil.Program

/-!
# Two runs by one schedule

Two pools are twins if their stores look the same behind the veil and their units are alike.  An
event that differs in the secrets of a new job leads twins to twins, and they log the same lines.

* `Event.Alike`, `SchedulesAlike`   events that differ in the secrets of new jobs;
* `Pool.Twins`         pools that differ in secrets;
* `Twins.next`         one event keeps them twins;
* `Twins.runs`         so does a schedule, which goes through for both;
* `Twins.row_iff`      twins have the same rows of jobs that have ended.
-/

namespace JobEngine

namespace Program

variable {α : Type} {R : α → α → Prop} {p q : Program Engine α}

/-- Behind the lines that they begin with, which are the same, programs are still alike. -/
theorem Alike.settled (h : p.Alike R q) : p.settled.Alike R q.settled ∧ p.lines = q.lines := by
  induction h with
  | done hab => exact ⟨.done hab, rfl⟩
  | crash => exact ⟨.crash, rfl⟩
  | @call c k k' hc hk ih =>
    cases c with
    | log l =>
      obtain ⟨hrest, hlines⟩ := ih () () rfl
      exact ⟨hrest, congrArg (List.cons l) hlines⟩
    | _ => exact ⟨.call hc hk, rfl⟩
  | insert hj hk => exact ⟨.insert hj hk, rfl⟩
  | publish hk => exact ⟨.publish hk, rfl⟩
  | invoke hk => exact ⟨.invoke hk, rfl⟩

end Program

/-- Tasks that differ in the secrets of a new job. -/
inductive Task.Alike : Task → Task → Prop
  | create (c : Controller) (request : NewJob) {p : Json} : request.params.Alike p →
    Alike (.create c request) (.create c { request with params := p })
  | same (t : Task) : Alike t t

theorem Task.Alike.program {t t' : Task} (h : t.Alike t') :
    t.program.Alike (fun _ _ => True) t'.program := by
  have hdone {α : Type} {R : α → α → Prop} {x y : Run α} (f : Except JobError α → Upshot)
      (h : Run.Alike R x y) : (x.run.bind fun r => .done (f r)).Alike (fun _ _ => True)
        (y.run.bind fun r => .done (f r)) :=
    Program.alike_bind h fun _ _ _ => .done trivial
  cases h with
  | create c request hp => exact hdone .filed (alike_create c request hp.redact_eq)
  | same t =>
    cases t with
    | create c request => exact hdone .filed (alike_create c request rfl)
    | run c tag id deadline =>
      exact hdone .ended (alike_footprint (alike_runUnit (.forJob tag id) id c deadline))
    | clean tag id =>
      exact hdone .ended (alike_footprint (alike_transaction _ fun ctx => alike_putBack ctx id))
    | poll limit order => exact hdone .listed (alike_due limit order)
    | sweep => exact hdone .listed (alike_ids _)

namespace Pool

/-- Events that differ in the secrets of a new job. -/
inductive Event.Alike : Event → Event → Prop
  | start {t t' : Task} : t.Alike t' → Alike (.start t) (.start t')
  | same (e : Event) : Alike e e

/-- Schedules that differ in the secrets of new jobs. -/
inductive SchedulesAlike : List Event → List Event → Prop
  | nil : SchedulesAlike [] []
  | cons {e e' : Event} {es es' : List Event} :
    e.Alike e' → SchedulesAlike es es' → SchedulesAlike (e :: es) (e' :: es')

theorem SchedulesAlike.refl (es : List Event) : SchedulesAlike es es := by
  induction es with
  | nil => exact .nil
  | cons e es ih => exact .cons (.same e) ih

/-- Both units are abandoned, or both go on alike. -/
def UnitsAlike (w w' : WorkUnit) : Prop :=
  Option.Rel (Program.Alike fun _ _ => True) w.rest w'.rest

/-- Two pools that differ in secrets. -/
structure Twins (P Q : Pool) : Prop where
  memory : P.memory.veil = Q.memory.veil
  now : P.now = Q.now
  length : P.units.length = Q.units.length
  units (u : Nat) : Option.Rel UnitsAlike P.units[u]? Q.units[u]?
  session (u : Nat) : P.session u = Q.session u

variable {P P' Q Q' : Pool} {m m' m₁ : Memory} {now : Instant} {luck : Luck}

theorem Twins.refl_fresh (m : Memory) (now : Instant) : Twins (fresh m now) (fresh m now) :=
  ⟨rfl, rfl, rfl, fun _ => .none, fun _ => rfl⟩

/-! ## answers -/

theorem sessionBehind_alike {c : EngineCall} {a b : c.Answer} (h : c.veil a = c.veil b)
    (s : Option SessionId) : sessionBehind s ⟨c, a⟩ = sessionBehind s ⟨c, b⟩ := by
  cases c with
  | store c =>
    cases c with
    | begin => exact congrArg (fun x => sessionBehind s ⟨.store .begin, x⟩) h
    | _ => rfl
  | _ => rfl

/-- What is decided is answered alike to questions that are alike. -/
theorem Luck.reply_alike {c : EngineCall} {a : c.Answer} (hm : m.veil = m'.veil) (hc : c.Guarded)
    (h : luck.reply m now c = some (a, m₁)) :
    ∃ b m₂, luck.reply m' now c = some (b, m₂) ∧ c.veil a = c.veil b ∧ m₁.veil = m₂.veil := by
  cases luck with
  | plain =>
    cases c with
    | store c =>
      obtain ⟨hanswer, hmem⟩ := Memory.perform_alike hm hc
      obtain ⟨a', ha, e⟩ := Option.map_eq_some_iff.mp h
      obtain ⟨rfl, rfl⟩ := Prod.mk.inj e
      rw [ha] at hanswer
      obtain ⟨b, hb, hab⟩ := Option.map_eq_some_iff.mp hanswer.symm
      refine ⟨b, (m'.perform c).2, ?_, hab.symm, hmem⟩
      show (m'.perform c).1.map _ = _
      rw [hb]
      rfl
    | clock | log | pause =>
      obtain ⟨rfl, rfl⟩ := Prod.mk.inj (Option.some.inj h)
      exact ⟨_, m', rfl, rfl, hm⟩
    | _ => simp [reply] at h
  | fault e =>
    cases c with
    | store c =>
      obtain ⟨rfl, rfl⟩ := Prod.mk.inj (Option.some.inj h)
      refine ⟨_, World.faulted m' c, rfl, rfl, ?_⟩
      cases c with
      | commit s | rollback s => exact Memory.close_alike hm s
      | _ => exact hm
    | _ => simp [reply] at h
  | heard r =>
    cases c with
    | publish =>
      obtain ⟨rfl, rfl⟩ := Prod.mk.inj (Option.some.inj h)
      exact ⟨_, m', rfl, rfl, hm⟩
    | _ => simp [reply] at h
  | acted r =>
    cases c with
    | invoke =>
      obtain ⟨rfl, rfl⟩ := Prod.mk.inj (Option.some.inj h)
      exact ⟨_, m', rfl, rfl, hm⟩
    | _ => simp [reply] at h
  | named id =>
    cases c with
    | freshId =>
      obtain ⟨rfl, rfl⟩ := Prod.mk.inj (Option.some.inj h)
      exact ⟨_, m', rfl, rfl, hm⟩
    | _ => simp [reply] at h

/-- A unit that is alike gets its answer by the same decision, and goes on alike. -/
theorem Luck.answers_alike {c : EngineCall} {k : c.Answer → Program Engine Upshot} {a : c.Answer}
    {q : Program Engine Upshot} (hm : m.veil = m'.veil)
    (hq : (Program.call c k).Alike (fun _ _ => True) q)
    (h : luck.reply m now c = some (a, m₁)) :
    ∃ (c' : EngineCall) (k' : c'.Answer → Program Engine Upshot) (b : c'.Answer) (m₂ : Memory),
      q = .call c' k' ∧ luck.reply m' now c' = some (b, m₂) ∧ m₁.veil = m₂.veil ∧
      (k a).Alike (fun _ _ => True) (k' b) ∧
      ∀ s, sessionBehind s ⟨c, a⟩ = sessionBehind s ⟨c', b⟩ := by
  cases hq with
  | @call _ _ k' hc hk =>
    obtain ⟨b, m₂, hb, hab, hmem⟩ := reply_alike hm hc h
    exact ⟨c, k', b, m₂, rfl, hb, hmem, hk a b hab, sessionBehind_alike hab⟩
  | @insert j j' _ k' hj hk =>
    cases luck with
    | plain =>
      obtain ⟨hanswer, hmem⟩ := Memory.insert_alike hm hj
      change some ((m.insert j).1, (m.insert j).2) = some (a, m₁) at h
      obtain ⟨rfl, rfl⟩ := Prod.mk.inj (Option.some.inj h)
      refine ⟨.store (.insert j'), k', (m'.insert j').1, (m'.insert j').2, rfl, rfl, hmem, ?_,
        fun _ => rfl⟩
      rw [← hanswer]
      exact hk _
    | fault e =>
      obtain ⟨rfl, rfl⟩ := Prod.mk.inj (Option.some.inj h)
      exact ⟨.store (.insert j'), k', _, m', rfl, rfl, hm, hk _, fun _ => rfl⟩
    | _ => simp [reply] at h
  | @publish _ e' _ k' hk =>
    cases luck with
    | heard r =>
      obtain ⟨rfl, rfl⟩ := Prod.mk.inj (Option.some.inj h)
      exact ⟨.publish e', k', _, m', rfl, rfl, hm, hk _, fun _ => rfl⟩
    | _ => simp [reply] at h
  | @invoke _ i' _ k' hk =>
    cases luck with
    | acted r =>
      obtain ⟨rfl, rfl⟩ := Prod.mk.inj (Option.some.inj h)
      exact ⟨.invoke i', k', _, m', rfl, rfl, hm, hk _, fun _ => rfl⟩
    | _ => simp [reply] at h

/-! ## events -/

theorem UnitsAlike.of_rest {w w' : WorkUnit} {p : Program Engine Upshot} (h : UnitsAlike w w')
    (hw : w.rest = some p) : ∃ q, w'.rest = some q ∧ p.Alike (fun _ _ => True) q := by
  unfold UnitsAlike at h
  rw [hw] at h
  generalize w'.rest = rest at h
  cases h with
  | some hpq => exact ⟨_, rfl, hpq⟩

theorem Twins.unit (h : P.Twins Q) {u : Nat} {w : WorkUnit} (hw : P.units[u]? = some w) :
    ∃ w', Q.units[u]? = some w' ∧ UnitsAlike w w' := by
  have hu := h.units u
  rw [hw] at hu
  generalize Q.units[u]? = x at hu
  cases hu with
  | some hww' => exact ⟨_, rfl, hww'⟩

/-- One unit of each is put in the place of another. -/
theorem Twins.set_units (h : P.Twins Q) (u : Nat) {w w' : WorkUnit} (hww' : UnitsAlike w w')
    (v : Nat) : Option.Rel UnitsAlike (P.units.set u w)[v]? (Q.units.set u w')[v]? := by
  rw [List.getElem?_set, List.getElem?_set, h.length]
  split
  · split
    · exact .some hww'
    · exact .none
  · exact h.units v

theorem Twins.start (h : P.Twins Q) {t t' : Task} (ht : t.Alike t') :
    (P.start t).Twins (Q.start t') where
  memory := h.memory
  now := h.now
  length := by
    show (P.units ++ [_]).length = (Q.units ++ [_]).length
    rw [List.length_append, List.length_append, h.length]
    rfl
  units u := by
    show Option.Rel _ (P.units ++ [_])[u]? (Q.units ++ [_])[u]?
    rw [List.getElem?_append, List.getElem?_append, h.length]
    split
    · exact h.units u
    · cases u - Q.units.length with
      | zero => exact .some (.some ht.program.settled.1)
      | succ n => exact .none
  session := h.session

theorem Twins.drop (h : P.Twins Q) (u : Nat) (w w' : WorkUnit) :
    (P.drop u w).Twins (Q.drop u w') where
  memory := by
    unfold Pool.drop
    rw [h.session u]
    cases Q.session u with
    | none => exact h.memory
    | some s => exact Memory.close_alike h.memory s
  now := h.now
  length := by simp [Pool.drop, h.length]
  units v := h.set_units u (by exact .none) v
  session := h.session

theorem Twins.goOn (h : P.Twins Q) (u : Nat) {w w' : WorkUnit} {x y : Heard}
    {p q : Program Engine Upshot} (hm : m.veil = m'.veil) (hpq : p.Alike (fun _ _ => True) q)
    (hxy : ∀ s, sessionBehind s x = sessionBehind s y) :
    (P.goOn u w x p m).Twins (Q.goOn u w' y q m') where
  memory := hm
  now := h.now
  length := by simp [Pool.goOn, h.length]
  units v := h.set_units u (by exact .some hpq.settled.1) v
  session v := by
    rw [session_goOn, session_goOn, h.session v]
    split
    · exact hxy _
    · rfl

/-- An event leads twins to twins, and they log the same. -/
theorem Twins.next {e e' : Event} {ls : List LogLine} (h : P.Twins Q) (he : e.Alike e')
    (hnext : P.next e = some (P', ls)) : ∃ Q', Q.next e' = some (Q', ls) ∧ P'.Twins Q' := by
  cases he with
  | @start t t' ht =>
    obtain ⟨rfl, rfl⟩ := Prod.mk.inj (Option.some.inj hnext)
    refine ⟨Q.start t', ?_, h.start ht⟩
    rw [ht.program.settled.2]
    rfl
  | same e =>
    cases e with
    | start t =>
      obtain ⟨rfl, rfl⟩ := Prod.mk.inj (Option.some.inj hnext)
      exact ⟨Q.start t, rfl, h.start (.same t)⟩
    | clock t =>
      obtain ⟨rfl, rfl⟩ := Prod.mk.inj (Option.some.inj hnext)
      exact ⟨{ Q with now := t }, rfl, h.memory, rfl, h.length, h.units, h.session⟩
    | drop u =>
      obtain ⟨w, p, hw, hp, rfl, rfl⟩ := next_drop.mp hnext
      obtain ⟨w', hw', hww'⟩ := h.unit hw
      obtain ⟨q, hq, _⟩ := hww'.of_rest hp
      exact ⟨Q.drop u w', next_drop.mpr ⟨w', q, hw', hq, rfl, rfl⟩, h.drop u w w'⟩
    | go u luck =>
      obtain ⟨w, c, k, a, m, hw, hk, hreply, rfl, rfl⟩ := next_go.mp hnext
      obtain ⟨w', hw', hww'⟩ := h.unit hw
      obtain ⟨q, hq, halike⟩ := hww'.of_rest hk
      obtain ⟨c', k', b, m', rfl, hreply', hm, hrest, hsession⟩ :=
        Luck.answers_alike h.memory halike hreply
      rw [h.now] at hreply'
      exact ⟨Q.goOn u w' ⟨c', b⟩ (k' b) m',
        next_go.mpr ⟨w', c', k', b, m', hw', hq, hreply', rfl, hrest.settled.2⟩,
        h.goOn u hm hrest hsession⟩

/-- A schedule that leads somewhere leads its twin there as well, with the same log. -/
theorem Twins.runs {ρ : Pool → Pool → Prop} {es es' : List Event} {ls : List LogLine}
    (h : P.Twins Q) (hes : SchedulesAlike es es') (hruns : Runs ρ P es ls P') :
    ∃ Q', Runs anyhow Q es' ls Q' ∧ P'.Twins Q' := by
  induction hruns generalizing Q es' with
  | nil P =>
    cases hes with
    | nil => exact ⟨Q, .nil Q, h⟩
  | cons hnext _ _ ih =>
    cases hes with
    | cons he hes =>
      obtain ⟨Q₁, hnext', h₁⟩ := h.next he hnext
      obtain ⟨Q', hruns', h'⟩ := ih h₁ hes
      exact ⟨Q', .cons hnext' trivial hruns', h'⟩

/-- Twins have the same rows of jobs that have ended. -/
theorem Twins.row_iff (h : P.Twins Q) (id : JobId) {r : Job} (hend : r.status.terminal) :
    P.memory.rows.get? id = some r ↔ Q.memory.rows.get? id = some r :=
  ⟨fun hr => Memory.row_of_veil_eq h.memory hr hend,
    fun hr => Memory.row_of_veil_eq h.memory.symm hr hend⟩

end Pool

end JobEngine
