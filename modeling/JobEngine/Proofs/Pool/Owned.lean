import JobEngine.Proofs.Pool.CutOff
import JobEngine.Proofs.Transcript

/-!
# What belongs to the units of a pool

A store that only the units of a pool use has no session but theirs, and each of them holds no lock
but that of its own job.  What a unit was told is the beginning of a transcript of its program.

* `Memory.get_locks`, `update_locks`, `close_locks`   where the locks of after come from;
* `May.locks`, `May.sessions`   the same of whatever a unit asks;
* `Pool.Owned`, `Reachable.owned`   each session and each lock has its unit;
* `Reachable.quiet`   if no unit has a session, the store is at rest;
* `Reachable.told_split`   each answer that a unit was told was given at a pool that was reached;
* `Reachable.yields`   what a unit was told and what it still hears is a transcript of its program.
-/

namespace JobEngine

theorem Table.eq_nil_of_get? {κ α : Type} [DecidableEq κ] {t : Table κ α}
    (h : ∀ key, t.get? key = none) : t = [] := by
  cases t with
  | nil => rfl
  | cons e t =>
    have h := h e.1
    rw [Table.get?_cons, if_pos rfl] at h
    simp at h

/-! ## locks and sessions behind a call -/

namespace Memory

variable {m m' : Memory} {s o : SessionId} {id k : JobId}

theorem acquire_locks (h : (m.acquire s id).2.locks.get? k = some o) :
    m.locks.get? k = some o ∨ o = s ∧ k = id := by
  rcases acquire_cases m s id with ⟨_, e⟩ | ⟨_, e⟩ | e | ⟨_, _, e⟩ <;> rw [e] at h
  · exact Or.inl h
  · exact Or.inl h
  · exact Or.inl h
  · change (m.locks.set id s).get? k = some o at h
    rw [Table.get?_set] at h
    split at h
    · next hk => exact Or.inr ⟨(Option.some.inj h).symm, hk.symm⟩
    · exact Or.inl h

theorem get_locks {lock : Bool} (h : (m.get s id lock).2.locks.get? k = some o) :
    m.locks.get? k = some o ∨ o = s ∧ k = id := by
  unfold get at h
  split at h
  · refine @acquire_locks m s o id k ?_
    split at h <;> next e => rw [e]; exact h
  · exact Or.inl h

theorem update_locks {changes : Changes} (h : (m.update s id changes).2.locks.get? k = some o) :
    m.locks.get? k = some o ∨ o = s ∧ k = id := by
  refine @acquire_locks m s o id k ?_
  unfold update at h
  split at h
  · next e => rw [e]; exact h
  · next e => rw [e]; exact h
  · next e =>
    rw [e]
    split at h
    · exact h
    · split at h <;> exact h

theorem close_locks (hm : m.Coherent) (h : (m.close s).locks.get? k = some o) :
    m.locks.get? k = some o := by
  change Table.get? k (m.locks.filter _) = some o at h
  rw [Table.get?_filter hm.locks_distinct, Option.filter_eq_some_iff] at h
  exact h.1

end Memory

open Memory

section
variable {t : Task} {st : Stage} {m m' : Memory} {now : Instant} {c : EngineCall} {a : c.Answer}

/-- A lock of after was held before, or is that of the unit's own job. -/
theorem May.locks (h : May t st c) (hm : m.Coherent) (hfits : t.Fits m st)
    (ha : Answers m now c a m') {k : JobId} {s : SessionId} (hl : m'.locks.get? k = some s) :
    m.locks.get? k = some s ∨ st.session = some s ∧ t.job = some k := by
  cases ha with
  | refused c e =>
    refine Or.inl ?_
    cases c with
    | commit s | rollback s => exact close_locks hm hl
    | _ => exact hl
  | performed hp =>
    obtain rfl := congrArg Prod.snd hp
    cases h with
    | fetch hjob =>
      exact (get_locks hl).imp_right fun ⟨hs, hk⟩ => ⟨congrArg some hs.symm, hk ▸ hjob⟩
    | mark =>
      exact (update_locks hl).imp_right fun ⟨hs, hk⟩ => ⟨congrArg some hs.symm, hk ▸ hfits.1⟩
    | settle =>
      exact (update_locks hl).imp_right fun ⟨hs, hk⟩ =>
        ⟨congrArg some hs.symm, hk ▸ Task.job_of_runs hfits.1⟩
    | commit | rollback => exact Or.inl (close_locks hm hl)
    | @file _ _ _ _ j =>
      refine Or.inl ?_
      rcases insert_cases m j with ⟨_, e⟩ | ⟨_, e⟩
      · exact (congrArg (fun x => x.2.locks.get? k) e).symm.trans hl
      · exact (congrArg (fun x => x.2.locks.get? k) e).symm.trans hl
    | _ => exact Or.inl hl
  | _ => exact Or.inl hl

/-- A session that was not open before was told to the unit. -/
theorem May.begins {c : StoreCall} {a : c.Answer} (h : May t st (.store c))
    (ha : Answers m now (.store c) a m') {s : SessionId}
    (hle : m.nextSession ≤ s) (hlt : s < m'.nextSession) :
    (⟨.store c, a⟩ : Heard) = ⟨.store .begin, .ok s⟩ := by
  have hsame (hnext : m'.nextSession = m.nextSession) : False :=
    absurd hle (Nat.not_le.mpr (hnext ▸ hlt))
  cases ha with
  | refused c e => exact (hsame (by cases c <;> rfl)).elim
  | performed hp =>
    obtain ⟨ha, rfl⟩ := Prod.mk.inj hp
    cases h with
    | enter | reenter | giveUp =>
      obtain rfl := Option.some.inj ha
      obtain rfl : s = m.nextSession := Nat.le_antisymm (Nat.le_of_lt_succ hlt) hle
      rfl
    | fetch => exact (hsame (get_next ..)).elim
    | mark | settle => exact (hsame (update_next ..)).elim
    | @file _ _ _ _ j =>
      refine (hsame ?_).elim
      rcases insert_cases m j with ⟨_, e⟩ | ⟨_, e⟩
      · exact congrArg (·.2.nextSession) e
      · exact congrArg (·.2.nextSession) e
    | _ => exact (hsame rfl).elim

/-- A session of after is that of the unit now, or was open before and is not the unit's. -/
theorem May.sessions (h : May t st c) (hm : m.Coherent) (hfits : t.Fits m st)
    (ha : Answers m now c a m') {s : SessionId} {own : Session}
    (hs : m'.sessions.get? s = some own) :
    Pool.sessionBehind st.session ⟨c, a⟩ = some s ∨
      (∃ own, m.sessions.get? s = some own) ∧ st.session ≠ some s := by
  cases c with
  | store c =>
    have heffect := h.effect hm hfits ha
    have hturn := h.sessionTurn a
    rcases heffect.back hs with ⟨own, hown, hne⟩ | ⟨_, hle⟩
    · by_cases hst : st.session = some s
      · refine Or.inl ?_
        generalize Pool.sessionBehind st.session ⟨.store c, a⟩ = o at hturn
        cases hturn with
        | opens n hnone => exact nomatch hnone.symm.trans hst
        | ends hn hends =>
          obtain rfl := Option.some.inj (hn.symm.trans hst)
          exact absurd hends hne
        | stays => exact hst
      · exact Or.inr ⟨⟨own, hown⟩, hst⟩
    · rw [h.begins ha hle (heffect.coherent.lt_next hs)]
      exact Or.inl rfl
  | _ =>
    cases ha
    by_cases hst : st.session = some s
    · exact Or.inl hst
    · exact Or.inr ⟨⟨own, hs⟩, hst⟩

end

namespace Pool

variable {P P' : Pool} {d : Deed} {ρ : Pool → Pool → Prop} {m : Memory} {now : Instant}
  {u : Nat} {w : WorkUnit} {p : Program Engine Upshot}

/-! ## whose they are -/

/-- Each open session is that of a unit, and a unit holds the lock of no job but its own. -/
structure Owned (P : Pool) : Prop where
  session {s : SessionId} {own : Session} : P.memory.sessions.get? s = some own →
    ∃ u w p, P.At u w p ∧ P.session u = some s
  lock {u : Nat} {w : WorkUnit} {p : Program Engine Upshot} {s : SessionId} {id : JobId} :
    P.At u w p → P.session u = some s → P.memory.locks.get? id = some s → w.task.job = some id

theorem owned_fresh (hm : m.Quiet) (now : Instant) : (fresh m now).Owned where
  session {s own} h := by
    change m.sessions.get? s = some own at h
    rw [hm.no_session] at h
    simp at h
  lock h := absurd h.lt (Nat.not_lt_zero _)

theorem At.start (h : P.At u w p) (t : Task) : (P.start t).At u w p where
  unit := (List.getElem?_append_left h.lt).trans h.unit
  rest := h.rest

theorem owned_start (hO : P.Owned) (hP : P.Sound) (t : Task) : (P.start t).Owned where
  session h := by
    obtain ⟨u, w, p, hu, hs⟩ := hO.session h
    exact ⟨u, w, p, hu.start t, hs⟩
  lock {u w p s id} h hs hl := by
    rcases at_start h with h | ⟨e, _⟩
    · exact hO.lock h hs hl
    · change P.session u = some s at hs
      unfold session at hs
      rw [hP.untold (Nat.le_of_eq e.symm)] at hs
      simp at hs

theorem At.drop {v : Nat} {w' : WorkUnit} {p' : Program Engine Upshot} (h : P.At v w' p')
    (hne : u ≠ v) : (P.drop u w).At v w' p' where
  unit := (List.getElem?_set_ne hne).trans h.unit
  rest := h.rest

/-- With a unit that is abandoned its session goes, and all the locks of that. -/
theorem owned_drop (hO : P.Owned) (hP : P.Sound) (hu : P.At u w p) : (P.drop u w).Owned := by
  have hsessions {s : SessionId} {own : Session}
      (h : (P.drop u w).memory.sessions.get? s = some own) :
      P.memory.sessions.get? s = some own ∧ P.session u ≠ some s := by
    unfold Pool.drop at h
    cases hs : P.session u with
    | none => exact ⟨by simpa only [hs] using h, by simp⟩
    | some s' =>
      simp only [hs, get?_close] at h
      split at h
      · simp at h
      · next hne => exact ⟨h, fun e => hne (Option.some.inj e)⟩
  have hlocks {s : SessionId} {k : JobId} (h : (P.drop u w).memory.locks.get? k = some s) :
      P.memory.locks.get? k = some s := by
    unfold Pool.drop at h
    cases hs : P.session u with
    | none => simpa only [hs] using h
    | some s' =>
      simp only [hs] at h
      exact close_locks hP.coherent h
  constructor
  · intro s own h
    obtain ⟨h, hne⟩ := hsessions h
    obtain ⟨v, w', p', hv, hs⟩ := hO.session h
    exact ⟨v, w', p', hv.drop fun e => hne (e ▸ hs), hs⟩
  · intro v w' p' s id h hs hl
    exact hO.lock (at_drop hu.lt h).2 hs (hlocks hl)

theorem At.goOn_self {x : Heard} {m' : Memory} {q : Program Engine Upshot} (hu : P.At u w p) :
    (P.goOn u w x q m').At u { w with rest := some q.settled } q.settled :=
  ⟨List.getElem?_set_self hu.lt, rfl⟩

theorem At.goOn_other {v : Nat} {w' : WorkUnit} {p' q : Program Engine Upshot} {x : Heard}
    {m' : Memory} (h : P.At v w' p') (hne : u ≠ v) : (P.goOn u w x q m').At v w' p' :=
  ⟨(List.getElem?_set_ne hne).trans h.unit, h.rest⟩

theorem owned_happens (hO : P.Owned) (hP : P.Sound) (hd : P.Happens d P') : P'.Owned := by
  obtain @⟨u, w, c, k, a, m, hw, hk, ha⟩ := hd
  have hu : P.At u w (.call c k) := ⟨hw, hk⟩
  have hmay := (hP.keeps hu).1
  have hturn := turn hP.coherent (hP.fits hu) hmay ha
  have hsession := hP.session hu
  have hself : (P.goOn u w ⟨c, a⟩ (k a) m).session u
      = sessionBehind (P.stage u w.task).session ⟨c, a⟩ := by
    rw [session_goOn, if_pos rfl, hsession]
  constructor
  · intro s own hs
    rcases hmay.sessions hP.coherent (hP.fits hu) ha hs with hown | ⟨⟨own, hown⟩, hne⟩
    · exact ⟨u, _, _, hu.goOn_self, hself.trans hown⟩
    · obtain ⟨v, w', p', hv, hvs⟩ := hO.session hown
      have hne : u ≠ v := fun e => hne (hsession.symm.trans (e ▸ hvs))
      exact ⟨v, w', p', hv.goOn_other hne, (session_goOn.trans (if_neg hne)).trans hvs⟩
  · intro v w' p' s id hv hvs hl
    have hlock := hmay.locks hP.coherent (hP.fits hu) ha hl
    rcases at_goOn hu.lt hv with ⟨rfl, htask, _⟩ | ⟨hne, hv⟩
    · rw [htask]
      rcases hlock with hbefore | ⟨_, hjob⟩
      · rcases hturn.opens s (hturn.session.symm.trans (hself.symm.trans hvs)) with hold | hnew
        · exact hO.lock hu (hsession.trans hold) hbefore
        · -- a session that is new has no lock of before
          obtain ⟨own, hown, _⟩ := hP.coherent.locked_iff.mp hbefore
          exact nomatch hnew.symm.trans hown
      · exact hjob
    · rw [session_goOn, if_neg hne] at hvs
      rcases hlock with hbefore | ⟨hs, _⟩
      · exact hO.lock hv hvs hbefore
      · exact absurd (hP.apart hu hv (hsession.trans hs) hvs) hne

theorem Reachable.owned (h : Reachable ρ (fresh m now) P) (hm : m.Quiet) : P.Owned := by
  refine h.invariant (owned_fresh hm now) fun P P' hP hO hs _ => ?_
  have hP := hP.sound hm
  cases hs with
  | start t => exact owned_start hO hP t
  | answer hd => exact owned_happens hO hP hd
  | drop hw hp => exact owned_drop hO hP ⟨hw, hp⟩
  | clock now =>
    refine ⟨fun hs => ?_, fun hu => hO.lock ⟨hu.unit, hu.rest⟩⟩
    obtain ⟨u, w, p, hu, hown⟩ := hO.session hs
    exact ⟨u, w, p, ⟨hu.unit, hu.rest⟩, hown⟩

/-- If no unit has a session, the store is at rest. -/
theorem Reachable.quiet (h : Reachable ρ (fresh m now) P) (hm : m.Quiet)
    (hnone : ∀ u w p, P.At u w p → P.session u = none) : P.memory.Quiet := by
  have hc := (h.sound hm).coherent
  have hclosed (s : SessionId) : P.memory.sessions.get? s = none := by
    cases hs : P.memory.sessions.get? s with
    | none => rfl
    | some own =>
      obtain ⟨u, w, p, hu, hown⟩ := (h.owned hm).session hs
      exact nomatch (hnone u w p hu).symm.trans hown
  refine ⟨hc.rows_distinct, hc.filed, Table.eq_nil_of_get? fun k => ?_,
    Table.eq_nil_of_get? hclosed⟩
  cases hl : P.memory.locks.get? k with
  | none => rfl
  | some s =>
    obtain ⟨own, hs, _⟩ := hc.locked_iff.mp hl
    exact nomatch (hclosed s).symm.trans hs

/-! ## what they were told -/

theorem Step.told_cases (hs : P.Step P') (u : Nat) :
    (∃ d, P.Happens d P' ∧ d.unit = u ∧ P'.told u = P.told u ++ [d.heard]) ∨
      P'.told u = P.told u := by
  rcases hs.cases_past with ⟨d, hd⟩ | ⟨hpast, _⟩
  · by_cases e : d.unit = u
    · exact Or.inl ⟨d, hd, e, e ▸ hd.told_eq⟩
    · refine Or.inr ?_
      obtain @⟨v, w, c, k, a, m, hw, hk, ha⟩ := hd
      exact (told_goOn ..).trans (if_neg e)
  · refine Or.inr ?_
    unfold told
    rw [hpast]

/-- Each answer that a unit was told was given at a pool that was reached, behind those before
it. -/
theorem Reachable.told_split (h : Reachable ρ (fresh m now) P) {as bs : List Heard} {x : Heard}
    (hsplit : P.told u = as ++ x :: bs) :
    ∃ Q Q', ∃ d ∈ P.past, Reachable ρ (fresh m now) Q ∧ Q.told u = as ∧ Q.Happens d Q' ∧ ρ Q Q' ∧
      Reachable ρ Q' P ∧ d.unit = u ∧ d.heard = x := by
  induction h generalizing bs with
  | refl => exact absurd (List.append_eq_nil_iff.mp hsplit.symm).2 (List.cons_ne_nil _ _)
  | @step P P' h hs hr ih =>
    have hpast {d : Deed} (hd : d ∈ P.past) : d ∈ P'.past := by
      rcases hs.cases_past with ⟨e, he⟩ | ⟨e, _⟩
      · exact he.past_eq ▸ List.mem_append_left _ hd
      · exact e ▸ hd
    rcases hs.told_cases u with ⟨d, hd, rfl, htold⟩ | htold
    · rw [htold] at hsplit
      rcases split_concat hsplit with ⟨_, has, hx⟩ | ⟨bs, _, hsplit⟩
      · have hmem : d ∈ P'.past := hd.past_eq ▸ List.mem_append_right _ (List.mem_singleton_self d)
        exact ⟨P, P', d, hmem, h, has.symm, hd, hr, .refl, rfl, hx.symm⟩
      · obtain ⟨Q, Q', e, hmem, hQ, has, he, hr', hP, hx⟩ := ih hsplit
        exact ⟨Q, Q', e, hpast hmem, hQ, has, he, hr', .step hP hs hr, hx⟩
    · obtain ⟨Q, Q', e, hmem, hQ, has, he, hr', hP, hx⟩ := ih (htold ▸ hsplit)
      exact ⟨Q, Q', e, hpast hmem, hQ, has, he, hr', .step hP hs hr, hx⟩

/-- What a unit was told, and what it still hears, is a transcript of its program. -/
theorem Reachable.yields (h : Reachable ρ (fresh m now) P) (hm : m.Quiet) (hu : P.At u w p)
    {hs : List Heard} {r : Option Upshot} (hp : p.Yields hs r) :
    w.task.program.Yields (P.told u ++ hs) r := by
  induction h generalizing u w p hs with
  | refl => exact absurd hu.lt (Nat.not_lt_zero _)
  | @step P P' h hstep _ ih =>
    have hP := h.sound hm
    cases hstep with
    | start t =>
      rcases at_start hu with hu | ⟨e, rfl⟩
      · exact ih hu hp
      · show t.program.Yields (P.told u ++ hs) r
        rw [hP.untold (Nat.le_of_eq e.symm), List.nil_append, ← Program.yields_settled]
        exact Option.some.inj hu.rest ▸ hp
    | answer hd =>
      obtain @⟨v, w', c, k, a, m', hw, hk, ha⟩ := hd
      have hv : P.At v w' (.call c k) := ⟨hw, hk⟩
      rw [told_goOn]
      rcases at_goOn hv.lt hu with ⟨rfl, htask, rfl⟩ | ⟨hne, hu⟩
      · rw [if_pos rfl, htask, List.append_assoc]
        refine ih hv (.call (fun l hc => hP.silent l hv ?_) ((Program.yields_settled _).mp hp))
        exact congrArg some hc
      · rw [if_neg hne]
        exact ih hu hp
    | drop hw' hp' => exact ih (at_drop (At.lt ⟨hw', hp'⟩) hu).2 hp
    | clock t => exact ih ⟨hu.unit, hu.rest⟩ hp

end Pool

end JobEngine
