import JobEngine.Proofs.Pool.Stage
import JobEngine.Proofs.Store.Locking

/-!
# What holds of every pool

The stage of a unit says what the store holds of it: at a stage with a session this session is
open, holds the row of the unit's job and has staged what the stage says.  No two units share a
session, so that what one of them does leaves the others as they are.

* `Task.Fits`          what the store holds of a unit at a stage;
* `Turn`, `turn`       all that one answer does to the store and to the unit that gets it;
* `Pool.Sound`         stages, sessions and store of a pool fit together;
* `Reachable.sound`    they always do.
-/

namespace JobEngine

open Memory

/-- What the store holds of a unit at a stage. -/
def Task.Fits (t : Task) (m : Memory) : Stage → Prop
  | .opened s => ∃ held, m.sessions.get? s = some ⟨[], held⟩
  | .fetched s j => t.job = some j.id ∧
    ∃ held, m.sessions.get? s = some ⟨[], held⟩ ∧ j.id ∈ held ∧ m.rows.get? j.id = some j
  | .marked s j c => t.job = some j.id ∧ t.Marks j c ∧
    ∃ held, m.sessions.get? s = some ⟨[(j.id, c.overwrite j)], held⟩ ∧ j.id ∈ held ∧
      m.rows.get? j.id = some j
  | .claimed => t.runs.isSome
  | .loaded v | .invoked v _ => t.runs = some v.id
  | .recording v _ s => t.runs = some v.id ∧ ∃ held, m.sessions.get? s = some ⟨[], held⟩
  | .recorded v how s c => t.runs = some v.id ∧ Settles v how c ∧
    ∃ r held, m.sessions.get? s = some ⟨[(v.id, c.overwrite r)], held⟩ ∧ v.id ∈ held ∧
      m.rows.get? v.id = some r ∧ ¬ c.Oversteps r
  | _ => True

section
variable {t : Task} {m m' : Memory} {st : Stage} {s : SessionId}

theorem Task.Fits.isOpen (h : t.Fits m st) (hs : st.session = some s) :
    ∃ own, m.sessions.get? s = some own := by
  cases st with
  | opened s' =>
    injection hs with hs
    obtain ⟨held, h⟩ := h
    exact ⟨_, hs ▸ h⟩
  | fetched s' j =>
    injection hs with hs
    obtain ⟨_, held, h, _⟩ := h
    exact ⟨_, hs ▸ h⟩
  | marked s' j c =>
    injection hs with hs
    obtain ⟨_, _, held, h, _⟩ := h
    exact ⟨_, hs ▸ h⟩
  | recording v how s' =>
    injection hs with hs
    obtain ⟨_, held, h⟩ := h
    exact ⟨_, hs ▸ h⟩
  | recorded v how s' c =>
    injection hs with hs
    obtain ⟨_, _, r, held, h, _⟩ := h
    exact ⟨_, hs ▸ h⟩
  | _ => simp [Stage.session] at hs

theorem Task.Fits.of_leaves (h : t.Fits m st) (hl : ∀ s, st.session = some s → Leaves s m m') :
    t.Fits m' st := by
  cases st with
  | opened s =>
    obtain ⟨held, hs⟩ := h
    exact ⟨held, (hl s rfl _ hs).1⟩
  | fetched s j =>
    obtain ⟨hj, held, hs, hid, hr⟩ := h
    obtain ⟨hs', hr'⟩ := hl s rfl _ hs
    exact ⟨hj, held, hs', hid, (hr' _ hid).trans hr⟩
  | marked s j c =>
    obtain ⟨hj, hc, held, hs, hid, hr⟩ := h
    obtain ⟨hs', hr'⟩ := hl s rfl _ hs
    exact ⟨hj, hc, held, hs', hid, (hr' _ hid).trans hr⟩
  | recording v how s =>
    obtain ⟨hj, held, hs⟩ := h
    exact ⟨hj, held, (hl s rfl _ hs).1⟩
  | recorded v how s c =>
    obtain ⟨hj, hc, r, held, hs, hid, hr, ho⟩ := h
    obtain ⟨hs', hr'⟩ := hl s rfl _ hs
    exact ⟨hj, hc, r, held, hs', hid, (hr' _ hid).trans hr, ho⟩
  | _ => exact h

end

/-! ## one answer -/

/-- What an answer does to the store and to the stage of the unit that gets it. -/
structure Turn (t : Task) (m : Memory) (st : Stage) (h : Heard) (m' : Memory) : Prop where
  coherent : m'.Coherent
  fits : t.Fits m' (hear t st h.1 h.2)
  leaves (s : SessionId) : st.session ≠ some s → Leaves s m m'
  session : Pool.sessionBehind st.session h = (hear t st h.1 h.2).session
  opens (s : SessionId) : (hear t st h.1 h.2).session = some s →
    st.session = some s ∨ m.sessions.get? s = none

section
variable {t : Task} {m m' : Memory} {st : Stage} {now : Instant}

theorem turn_quiet {h : Heard} (hm : m.Coherent) (hfits : t.Fits m (hear t st h.1 h.2))
    (hst : (hear t st h.1 h.2).session = st.session)
    (hs : Pool.sessionBehind st.session h = st.session) : Turn t m st h m where
  coherent := hm
  fits := hfits
  leaves _ _ := .refl _ m
  session := hs.trans hst.symm
  opens _ e := Or.inl (hst ▸ e)

theorem turn_end {s : SessionId} {h : Heard} (hm : m'.Coherent) (hs : st.session = some s)
    (hfits : t.Fits m' (hear t st h.1 h.2)) (hst : (hear t st h.1 h.2).session = none)
    (hb : Pool.sessionBehind st.session h = none) (hl : ∀ s', s ≠ s' → Leaves s' m m') :
    Turn t m st h m' where
  coherent := hm
  fits := hfits
  leaves s' hne := hl s' fun e => hne (e ▸ hs)
  session := hb.trans hst.symm
  opens s' e := by rw [hst] at e; simp at e

theorem turn_begin {a : (StoreCall.begin).Answer} (hm : m.Coherent) (hst : st.session = none)
    (hbegun : ∀ n held, m.openSession.2.sessions.get? n = some ⟨[], held⟩ →
      t.Fits m.openSession.2 (st.begun n) ∧ (st.begun n).session = some n)
    (ha : Answers m now (.store .begin) a m') : Turn t m st ⟨.store .begin, a⟩ m' := by
  cases ha with
  | refused e => exact turn_quiet hm trivial hst.symm rfl
  | performed h =>
    obtain ⟨h₁, rfl⟩ := Prod.mk.inj h
    obtain rfl := Option.some.inj h₁
    obtain ⟨hf, hs⟩ := hbegun m.nextSession [] (get?_openSession m)
    refine ⟨openSession_coherent hm, hf, fun s _ => openSession_leaves hm s, hs.symm, ?_⟩
    intro s e
    rw [show hear t st _ _ = st.begun m.nextSession from rfl, hs] at e
    injection e with e
    refine Or.inr ?_
    cases hn : m.sessions.get? s with
    | none => rfl
    | some own => exact absurd (hm.lt_next hn) (e ▸ Nat.lt_irrefl _)

theorem turn_clock (hm : m.Coherent) (hfits : t.Fits m st) :
    Turn t m st ⟨.clock, now⟩ m := by
  by_cases hst : st = .idle
  · subst hst
    cases t <;> exact turn_quiet hm trivial rfl rfl
  · have htold : hear t st .clock now = st := Stage.told_of_ne_idle hst now
    exact turn_quiet hm (htold.symm ▸ hfits) (congrArg Stage.session htold) rfl

theorem turn_get {s : SessionId} {id : JobId} {held : List JobId}
    {a : (StoreCall.get s id true).Answer} (hm : m.Coherent) (hjob : t.job = some id)
    (hs : m.sessions.get? s = some ⟨[], held⟩)
    (ha : Answers m now (.store (.get s id true)) a m') :
    Turn t m (.opened s) ⟨.store (.get s id true), a⟩ m' := by
  cases ha with
  | refused e => exact turn_quiet hm ⟨held, hs⟩ rfl rfl
  | performed h =>
    obtain ⟨hc, hr, ho, hcase⟩ := get_cases hm hs h
    rcases hcase with ⟨rfl, rfl⟩ | ⟨held', j, rfl, hj, hs', hid⟩
    · exact turn_quiet hm ⟨held, hs⟩ rfl rfl
    · have hrow : m.rows.get? id = some j := hj
      obtain rfl := hm.filed hrow
      refine ⟨hc, ⟨hjob, held', hs', hid, hr ▸ hrow⟩, fun s' hne => ?_, rfl, fun s' e => Or.inl e⟩
      exact leaves_of_same hr (ho s' fun e => hne (e ▸ rfl))

theorem turn_update {s : SessionId} {id : JobId} {changes : Changes} {held : List JobId}
    {a : (StoreCall.update s id changes).Answer} (hm : m.Coherent) (hsession : st.session = some s)
    (hs : m.sessions.get? s = some ⟨[], held⟩) (hfits : t.Fits m st)
    (hstay : ∀ m' held', m'.rows = m.rows → m'.sessions.get? s = some ⟨[], held'⟩ → id ∈ held' →
      t.Fits m' st)
    (hstage : ∀ m' held' r, m'.rows = m.rows → m.rows.get? id = some r →
      m'.sessions.get? s = some ⟨[(id, changes.overwrite r)], held'⟩ → id ∈ held' →
      ¬ changes.Oversteps r → t.Fits m' (st.changed changes))
    (hchanged : (st.changed changes).session = some s)
    (ha : Answers m now (.store (.update s id changes)) a m') :
    Turn t m st ⟨.store (.update s id changes), a⟩ m' := by
  cases ha with
  | refused e => exact turn_quiet hm hfits rfl rfl
  | performed h =>
    obtain ⟨hc, hr, ho, hcase⟩ := update_cases hm hs h
    have hleaves (s' : SessionId) (hne : st.session ≠ some s') : Leaves s' m m' :=
      leaves_of_same hr (ho s' fun e => hne (e ▸ hsession))
    rcases hcase with ⟨rfl, rfl⟩ | ⟨held', r, hrow, hid, ⟨e, _, rfl, hs'⟩ | ⟨j', hj', rfl, hs'⟩⟩
    · exact turn_quiet hm hfits rfl rfl
    · exact ⟨hc, hstay m' held' hr hs' hid, hleaves, rfl, fun s' e => Or.inl e⟩
    · obtain ⟨hover, rfl⟩ := Changes.apply_eq_ok_iff.mp hj'
      refine ⟨hc, hstage m' held' r hr hrow hs' hid hover, hleaves, ?_, fun s' e => Or.inl ?_⟩
      · exact hsession.trans hchanged.symm
      · exact hsession.trans (hchanged.symm.trans e)

theorem turn_commit {s : SessionId} {a : (StoreCall.commit s).Answer} (hm : m.Coherent)
    (hfits : t.Fits m st) (hsession : st.session = some s)
    (ha : Answers m now (.store (.commit s)) a m') : Turn t m st ⟨.store (.commit s), a⟩ m' := by
  obtain ⟨own, hs⟩ := hfits.isOpen hsession
  cases ha with
  | refused e =>
    exact turn_end (close_coherent hm hs) hsession trivial rfl rfl fun s' hne => close_leaves hne
  | performed h =>
    obtain ⟨h₁, rfl⟩ := Prod.mk.inj h
    obtain rfl := Option.some.inj h₁
    refine turn_end (commit_coherent hm hs) hsession ?_ ?_ rfl fun s' hne => commit_leaves hm hs hne
    · show t.Fits _ (st.committed t)
      rcases Stage.committed_cases t st with ⟨e, hrun, _⟩ | e <;> rw [e]
      · exact hrun
      · exact trivial
    · show (st.committed t).session = none
      rcases Stage.committed_cases t st with ⟨e, _⟩ | e <;> rw [e] <;> rfl

theorem turn_rollback {s : SessionId} {a : (StoreCall.rollback s).Answer} (hm : m.Coherent)
    (hfits : t.Fits m st) (hsession : st.session = some s)
    (ha : Answers m now (.store (.rollback s)) a m') :
    Turn t m st ⟨.store (.rollback s), a⟩ m' := by
  obtain ⟨own, hs⟩ := hfits.isOpen hsession
  have hm' : m' = m.close s := by
    cases ha with
    | refused e => rfl
    | performed h => exact (Prod.mk.inj h).2.symm
  subst hm'
  exact turn_end (close_coherent hm hs) hsession trivial rfl rfl fun s' hne => close_leaves hne

/-- Every answer to a question that the stage allows. -/
theorem turn {c : EngineCall} {a : c.Answer} (hm : m.Coherent) (hfits : t.Fits m st)
    (hmay : May t st c) (ha : Answers m now c a m') : Turn t m st ⟨c, a⟩ m' := by
  cases hmay with
  | log t st l =>
    cases ha
    exact turn_quiet hm hfits rfl rfl
  | enter hjob =>
    exact turn_begin hm rfl (fun n held hs => ⟨⟨held, hs⟩, rfl⟩) ha
  | fetch hjob =>
    obtain ⟨held, hs⟩ := hfits
    exact turn_get hm hjob hs ha
  | stamp =>
    cases ha
    exact turn_clock hm hfits
  | @mark t s j changes hmark =>
    obtain ⟨hjob, held, hs, hid, hrow⟩ := id hfits
    refine turn_update hm rfl hs hfits (fun m' held' hr hs' hid' => ?_)
      (fun m' held' r hr hr' hs' hid' _ => ?_) rfl ha
    · exact ⟨hjob, held', hs', hid', hr ▸ hrow⟩
    · obtain rfl := Option.some.inj (hrow.symm.trans hr')
      exact ⟨hjob, hmark, held', hs', hid', hr ▸ hrow⟩
  | commit hs => exact turn_commit hm hfits hs ha
  | rollback hs => exact turn_rollback hm hfits hs ha
  | @load _ _ id =>
    cases ha with
    | refused e => exact turn_quiet hm trivial rfl rfl
    | performed h =>
      obtain ⟨h₁, rfl⟩ := Prod.mk.inj h
      obtain rfl := Option.some.inj h₁
      cases hrow : m.rows.get? id with
      | none => exact turn_quiet hm trivial rfl rfl
      | some v => exact turn_quiet hm (congrArg some (hm.filed hrow).symm) rfl rfl
  | publish hview =>
    cases ha
    exact turn_quiet hm hfits rfl rfl
  | time hview =>
    cases ha
    exact turn_clock hm hfits
  | invoke hrun hk =>
    cases ha
    exact turn_quiet hm hfits rfl rfl
  | reenter => exact turn_begin hm rfl (fun n held hs => ⟨⟨hfits, held, hs⟩, rfl⟩) ha
  | giveUp hk => exact turn_begin hm rfl (fun n held hs => ⟨⟨hfits, held, hs⟩, rfl⟩) ha
  | settle hset =>
    obtain ⟨hjob, held, hs⟩ := id hfits
    refine turn_update hm rfl hs hfits (fun m' held' _ hs' _ => ⟨hjob, held', hs'⟩)
      (fun m' held' r hr hr' hs' hid' hover => ?_) rfl ha
    exact ⟨hjob, hset, r, held', hs', hid', hr ▸ hr', hover⟩
  | name =>
    cases ha
    exact turn_quiet hm trivial rfl rfl
  | date =>
    cases ha
    exact turn_clock hm hfits
  | @file _ _ _ _ j hj =>
    cases ha with
    | refused e => exact turn_quiet hm trivial rfl rfl
    | performed h =>
      obtain ⟨_, rfl⟩ := Prod.mk.inj h
      exact ⟨insert_coherent hm j, trivial, fun s _ => insert_leaves hm j s, rfl, fun _ => Or.inl⟩
  | watch =>
    cases ha
    exact turn_clock hm hfits
  | due =>
    cases ha with
    | refused e => exact turn_quiet hm trivial rfl rfl
    | performed h =>
      obtain ⟨h₁, rfl⟩ := Prod.mk.inj h
      obtain rfl := Option.some.inj h₁
      exact turn_quiet hm trivial rfl rfl
  | abandoned =>
    cases ha with
    | refused e => exact turn_quiet hm trivial rfl rfl
    | performed h =>
      obtain ⟨h₁, rfl⟩ := Prod.mk.inj h
      obtain rfl := Option.some.inj h₁
      exact turn_quiet hm trivial rfl rfl

end

/-! ## a pool -/

namespace Pool

/-- The stage that a unit has come to. -/
def stage (P : Pool) (u : Nat) (t : Task) : Stage :=
  (P.told u).foldl (fun st h => hear t st h.1 h.2) .idle

/-- Unit `u` is `w`, which was not abandoned and has `p` before it. -/
structure At (P : Pool) (u : Nat) (w : WorkUnit) (p : Program Engine Upshot) : Prop where
  unit : P.units[u]? = some w
  rest : w.rest = some p

structure Sound (P : Pool) : Prop where
  coherent : P.memory.Coherent
  keeps {u : Nat} {w : WorkUnit} {p : Program Engine Upshot} :
    P.At u w p → p.Keeps (conduct w.task) (Ends w.task) (P.stage u w.task)
  fits {u : Nat} {w : WorkUnit} {p : Program Engine Upshot} :
    P.At u w p → w.task.Fits P.memory (P.stage u w.task)
  session {u : Nat} {w : WorkUnit} {p : Program Engine Upshot} :
    P.At u w p → P.session u = (P.stage u w.task).session
  /-- No session is shared. -/
  apart {u v : Nat} {w w' : WorkUnit} {p p' : Program Engine Upshot} {s : SessionId} :
    P.At u w p → P.At v w' p' → P.session u = some s → P.session v = some s → u = v
  untold {u : Nat} : P.units.length ≤ u → P.told u = []
  /-- Nobody waits for a log line. -/
  silent {u : Nat} {w : WorkUnit} {p : Program Engine Upshot} (l : LogLine) :
    P.At u w p → p.question ≠ some (.log l)

variable {P P' : Pool} {u v : Nat} {w w' : WorkUnit} {p p' : Program Engine Upshot}

theorem At.lt (h : P.At u w p) : u < P.units.length := (List.getElem?_eq_some_iff.mp h.unit).1

theorem At.eq (h : P.At u w p) (h' : P.At u w' p') : w = w' :=
  Option.some.inj (h.unit.symm.trans h'.unit)

/-! ### where units are behind a step -/

theorem unit_start {t : Task} (h : (P.start t).units[v]? = some w') :
    P.units[v]? = some w' ∨ v = P.units.length ∧ w' = .start t := by
  have hv : (P.units ++ [WorkUnit.start t])[v]? = some w' := h
  rw [List.getElem?_append] at hv
  split at hv
  · exact Or.inl hv
  · next hge =>
    have hlt := (List.getElem?_eq_some_iff.mp hv).1
    rw [List.length_singleton] at hlt
    obtain rfl : v = P.units.length := by omega
    rw [Nat.sub_self] at hv
    exact Or.inr ⟨rfl, (Option.some.inj hv).symm⟩

theorem at_start {t : Task} (h : (P.start t).At v w' p') :
    P.At v w' p' ∨ v = P.units.length ∧ w' = .start t := by
  rcases unit_start h.unit with hv | hv
  · exact Or.inl ⟨hv, h.rest⟩
  · exact Or.inr hv

theorem at_set {rest : Option (Program Engine Upshot)} (hu : u < P.units.length)
    (h : (P.units.set u { w with rest })[v]? = some w') :
    u = v ∧ w' = { w with rest } ∨ u ≠ v ∧ P.units[v]? = some w' := by
  by_cases e : u = v
  · subst e
    rw [List.getElem?_set_self hu] at h
    exact Or.inl ⟨rfl, (Option.some.inj h).symm⟩
  · rw [List.getElem?_set_ne e] at h
    exact Or.inr ⟨e, h⟩

theorem at_drop (hu : u < P.units.length) (h : (P.drop u w).At v w' p') :
    u ≠ v ∧ P.At v w' p' := by
  rcases at_set hu h.unit with ⟨_, rfl⟩ | ⟨hne, hv⟩
  · exact absurd h.rest (by simp)
  · exact ⟨hne, hv, h.rest⟩

theorem at_goOn {x : Heard} {m : Memory} (hu : u < P.units.length)
    (h : (P.goOn u w x p m).At v w' p') :
    u = v ∧ w'.task = w.task ∧ p' = p.settled ∨ u ≠ v ∧ P.At v w' p' := by
  rcases at_set hu h.unit with ⟨e, rfl⟩ | ⟨hne, hv⟩
  · exact Or.inl ⟨e, rfl, (Option.some.inj h.rest).symm⟩
  · exact Or.inr ⟨hne, hv, h.rest⟩

theorem stage_goOn {x : Heard} {m : Memory} (t : Task) :
    (P.goOn u w x p m).stage v t =
      if u = v then hear t (P.stage v t) x.1 x.2 else P.stage v t := by
  unfold stage
  rw [told_goOn]
  split
  · rw [List.foldl_append]; rfl
  · rfl

theorem session_goOn {x : Heard} {m : Memory} :
    (P.goOn u w x p m).session v =
      if u = v then sessionBehind (P.session v) x else P.session v := by
  unfold session
  rw [told_goOn]
  split
  · rw [List.foldl_append]; rfl
  · rfl

/-! ### each step -/

theorem sound_fresh {m : Memory} (hm : m.Coherent) (now : Instant) : (fresh m now).Sound where
  coherent := hm
  keeps h := absurd h.lt (Nat.not_lt_zero _)
  fits h := absurd h.lt (Nat.not_lt_zero _)
  session h := absurd h.lt (Nat.not_lt_zero _)
  apart h := absurd h.lt (Nat.not_lt_zero _)
  untold _ := rfl
  silent _ h := absurd h.lt (Nat.not_lt_zero _)

theorem sound_start (hP : P.Sound) (t : Task) : (P.start t).Sound := by
  have hidle (v : Nat) (hv : v = P.units.length) (t : Task) :
      P.stage v t = .idle ∧ P.session v = none := by
    unfold stage session
    rw [hP.untold (Nat.le_of_eq hv.symm)]
    exact ⟨rfl, rfl⟩
  refine ⟨hP.coherent, ?_, ?_, ?_, ?_, ?_, ?_⟩
  · intro u w p h
    rcases at_start h with h | ⟨e, rfl⟩
    · exact hP.keeps h
    · show p.Keeps (conduct t) (Ends t) (P.stage u t)
      rw [(hidle u e t).1, ← Option.some.inj h.rest]
      exact t.keeps.settled
  · intro u w p h
    rcases at_start h with h | ⟨e, rfl⟩
    · exact hP.fits h
    · show t.Fits P.memory (P.stage u t)
      rw [(hidle u e t).1]
      exact trivial
  · intro u w p h
    rcases at_start h with h | ⟨e, rfl⟩
    · exact hP.session h
    · show P.session u = (P.stage u t).session
      rw [(hidle u e t).1, (hidle u e t).2]
      rfl
  · intro u v w w' p p' s h h' hs hs'
    have hold {u : Nat} {w : WorkUnit} {p : Program Engine Upshot} (h : (P.start t).At u w p)
        (hs : P.session u = some s) : P.At u w p := by
      rcases at_start h with h | ⟨e, _⟩
      · exact h
      · rw [(hidle u e t).2] at hs; simp at hs
    exact hP.apart (hold h hs) (hold h' hs') hs hs'
  · intro u hu
    refine hP.untold (Nat.le_trans ?_ hu)
    show P.units.length ≤ (P.units ++ [_]).length
    simp
  · intro u w p l h
    rcases at_start h with h | ⟨_, rfl⟩
    · exact hP.silent l h
    · rw [← Option.some.inj h.rest]
      exact Program.question_settled_ne_log _ l

theorem sound_drop (hP : P.Sound) (h : P.At u w p) : (P.drop u w).Sound := by
  have hmem : (P.drop u w).memory.Coherent ∧ ∀ v w' p', P.At v w' p' → u ≠ v → ∀ s,
      (P.stage v w'.task).session = some s → Leaves s P.memory (P.drop u w).memory := by
    unfold drop
    cases hs : P.session u with
    | none => exact ⟨hP.coherent, fun v w' p' _ _ s _ => .refl s _⟩
    | some s =>
      obtain ⟨own, hown⟩ := (hP.fits h).isOpen ((hP.session h).symm.trans hs)
      refine ⟨close_coherent hP.coherent hown, fun v w' p' h' hne s' hs' => close_leaves ?_⟩
      rintro rfl
      exact hne (hP.apart h h' hs ((hP.session h').trans hs'))
  refine ⟨hmem.1, fun h' => ?_, fun h' => ?_, fun h' => ?_, fun h₁ h₂ => ?_, fun hu => ?_,
    fun l h' => ?_⟩
  · exact hP.keeps (at_drop h.lt h').2
  · obtain ⟨hne, h'⟩ := at_drop h.lt h'
    exact (hP.fits h').of_leaves (hmem.2 _ _ _ h' hne)
  · exact hP.session (at_drop h.lt h').2
  · exact hP.apart (at_drop h.lt h₁).2 (at_drop h.lt h₂).2
  · exact hP.untold (by simpa [drop] using hu)
  · exact hP.silent l (at_drop h.lt h').2

theorem sound_happens {d : Deed} (hP : P.Sound) (h : P.Happens d P') : P'.Sound := by
  obtain @⟨u, w, c, k, a, m, hw, hk, ha⟩ := h
  have hu : P.At u w (.call c k) := ⟨hw, hk⟩
  obtain ⟨hmay, hnext⟩ := hP.keeps hu
  have hturn := turn hP.coherent (hP.fits hu) hmay ha
  have hses := hP.session hu
  have hself : (P.goOn u w ⟨c, a⟩ (k a) m).session u
      = (hear w.task (P.stage u w.task) c a).session := by
    rw [session_goOn, if_pos rfl, hses]
    exact hturn.session
  -- a session that the unit has now is its own or new
  have hother {v : Nat} {w' : WorkUnit} {p' : Program Engine Upshot} {s : SessionId}
      (hne : u ≠ v) (hv : P.At v w' p') (hs : (P.goOn u w ⟨c, a⟩ (k a) m).session u = some s) :
      P.session v ≠ some s := by
    intro hs'
    rcases hturn.opens s (hself ▸ hs) with ho | hnew
    · exact hne (hP.apart hu hv (hses.trans ho) hs')
    · obtain ⟨own, hown⟩ := (hP.fits hv).isOpen ((hP.session hv).symm.trans hs')
      rw [hnew] at hown
      simp at hown
  refine ⟨hturn.coherent, fun h' => ?_, fun h' => ?_, fun h' => ?_, ?_, fun hv => ?_,
    fun l h' => ?_⟩
  · rw [stage_goOn]
    rcases at_goOn hu.lt h' with ⟨rfl, htask, rfl⟩ | ⟨hne, h'⟩
    · rw [if_pos rfl, htask]
      exact (hnext a).settled
    · rw [if_neg hne]
      exact hP.keeps h'
  · rw [stage_goOn]
    rcases at_goOn hu.lt h' with ⟨rfl, htask, rfl⟩ | ⟨hne, h'⟩
    · rw [if_pos rfl, htask]
      exact hturn.fits
    · rw [if_neg hne]
      refine (hP.fits h').of_leaves fun s hs => hturn.leaves s fun hs' => hne ?_
      exact hP.apart hu h' (hses.trans hs') ((hP.session h').trans hs)
  · rw [stage_goOn]
    rcases at_goOn hu.lt h' with ⟨rfl, htask, rfl⟩ | ⟨hne, h'⟩
    · rw [if_pos rfl, htask]
      exact hself
    · rw [if_neg hne, session_goOn, if_neg hne]
      exact hP.session h'
  · intro v₁ v₂ w₁ w₂ p₁ p₂ s h₁ h₂ hs₁ hs₂
    rcases at_goOn hu.lt h₁ with ⟨rfl, _, _⟩ | ⟨hne₁, h₁⟩ <;>
      rcases at_goOn hu.lt h₂ with ⟨rfl, _, _⟩ | ⟨hne₂, h₂⟩
    · rfl
    · rw [session_goOn, if_neg hne₂] at hs₂
      exact absurd hs₂ (hother hne₂ h₂ hs₁)
    · rw [session_goOn, if_neg hne₁] at hs₁
      exact absurd hs₁ (hother hne₁ h₁ hs₂)
    · rw [session_goOn, if_neg hne₁] at hs₁
      rw [session_goOn, if_neg hne₂] at hs₂
      exact hP.apart h₁ h₂ hs₁ hs₂
  · rw [show (P.goOn u w ⟨c, a⟩ (k a) m).units.length = P.units.length from List.length_set] at hv
    rw [told_goOn, if_neg (Nat.ne_of_lt (Nat.lt_of_lt_of_le hu.lt hv))]
    exact hP.untold hv
  · rcases at_goOn hu.lt h' with ⟨rfl, _, rfl⟩ | ⟨_, h'⟩
    · exact Program.question_settled_ne_log _ l
    · exact hP.silent l h'

theorem sound_step (hP : P.Sound) (h : P.Step P') : P'.Sound := by
  cases h with
  | start t => exact sound_start hP t
  | answer h => exact sound_happens hP h
  | drop hw hp => exact sound_drop hP ⟨hw, hp⟩
  | clock t =>
    exact ⟨hP.coherent, fun h => hP.keeps ⟨h.unit, h.rest⟩, fun h => hP.fits ⟨h.unit, h.rest⟩,
      fun h => hP.session ⟨h.unit, h.rest⟩,
      fun h h' => hP.apart ⟨h.unit, h.rest⟩ ⟨h'.unit, h'.rest⟩, hP.untold,
      fun l h => hP.silent l ⟨h.unit, h.rest⟩⟩

theorem Reachable.sound {ρ : Pool → Pool → Prop} {m : Memory} {now : Instant}
    (h : Reachable ρ (fresh m now) P) (hm : m.Quiet) : P.Sound :=
  h.invariant (sound_fresh hm.coherent now) fun _ _ _ hP hs _ => sound_step hP hs

end Pool

end JobEngine
