import JobEngine.Proofs.Store.Calls

/-!
# What an answer does

Every answer of the store, to whichever call, is described once: what it does to a row, to the
session that is asked and to the others.

* `Memory.RowEffect`, `Memory.StageEffect`   the ways to treat a row, and what is staged of it;
* `Memory.Effect`      all that an answer does;
* `Serves.effect`      every answer does this;
* `Trace.coherent`     so the store stays coherent;
* `Memory.Drifts`      others call the store, and leave a session alone;
* `coherent_of_serveAll`   a store that was made by a script is so.
-/

namespace JobEngine.Memory

variable {wait : Nat} {m m' m₀ : Memory} {s : SessionId} {own : Session} {id : JobId} {e : Event}

/-- What an answer does to the row of `id`. -/
inductive RowEffect (m : Memory) (e : Event) (m' : Memory) (id : JobId) : Prop
  | stays : e.commits = none → e.writes id = none → e.inserts id = none →
    m'.rows.get? id = m.rows.get? id → RowEffect m e m' id
  | files {s : SessionId} {own : Session} : e = ⟨.commit s, .ok ()⟩ →
    m.sessions.get? s = some own →
    m'.rows.get? id = (own.staged.get? id).or (m.rows.get? id) → RowEffect m e m' id
  | writes {c : Changes} {j j' : Job} : e = ⟨.write id c, .ok 1⟩ → m.rows.get? id = some j →
    c.apply j = .ok j' → m'.rows.get? id = some j' → RowEffect m e m' id
  | inserts {j : Job} {k : JobId} : e = ⟨.insert j, .ok k⟩ → j.id = id →
    m.rows.get? id = none → m'.rows.get? id = some j → RowEffect m e m' id

/-- What an answer to session `s` does to what it has staged of a row. -/
inductive StageEffect (m : Memory) (s : SessionId) (e : Event) (own own' : Session) (id : JobId) :
    Prop
  | stays : e.changes s id = none → own'.staged.get? id = own.staged.get? id →
    StageEffect m s e own own' id
  | stages {c : Changes} {j j' : Job} : e.changes s id = some c →
    (own.staged.get? id).or (m.rows.get? id) = some j → c.apply j = .ok j' →
    own'.staged.get? id = some j' → id ∈ own'.held → StageEffect m s e own own' id

/-- All that an answer does. -/
structure Effect (m : Memory) (e : Event) (m' : Memory) : Prop where
  coherent : m'.Coherent
  next_le : m.nextSession ≤ m'.nextSession
  leaves {s : SessionId} : e.1.session? ≠ some s → Leaves s m m'
  own {s : SessionId} {own : Session} : m.sessions.get? s = some own → e.1.session? = some s →
    e.1.ends? ≠ some s → m'.rows = m.rows ∧ ∃ own', m'.sessions.get? s = some own' ∧
      (∀ id ∈ own.held, id ∈ own'.held) ∧ ∀ id, StageEffect m s e own own' id
  /-- A session of after was there before, or is new. -/
  back {s : SessionId} {own' : Session} : m'.sessions.get? s = some own' →
    (∃ own, m.sessions.get? s = some own ∧ e.1.ends? ≠ some s) ∨ own' = {} ∧ m.nextSession ≤ s
  row (id : JobId) : RowEffect m e m' id

theorem RowEffect.of_rests (he : e.Rests) (hrow : m'.rows.get? id = m.rows.get? id) :
    RowEffect m e m' id :=
  .stays he.1 (he.2 id).1 (he.2 id).2 hrow

theorem ends_ne {c : StoreCall} (h : c.ends? = none) (s : SessionId) : c.ends? ≠ some s := by
  rw [h]
  exact (Option.some_ne_none s).symm

/-- An answer that changes nothing. -/
theorem effect_quiet (hm : m.Coherent) (hends : e.1.ends? = none)
    (hchanges : ∀ s id, e.changes s id = none) (he : e.Rests) : Effect m e m where
  coherent := hm
  next_le := Nat.le_refl _
  leaves _ := .refl _ m
  own hs _ _ := ⟨rfl, _, hs, fun _ h => h, fun id => .stays (hchanges _ id) rfl⟩
  back {s own'} hs := Or.inl ⟨own', hs, ends_ne hends s⟩
  row _ := .of_rests he rfl

/-- An answer to a session that goes on. -/
theorem effect_session {own own' : Session} (hm : m'.Coherent)
    (hnext : m'.nextSession = m.nextSession) (hrows : m'.rows = m.rows)
    (hs : m.sessions.get? s = some own) (hs' : m'.sessions.get? s = some own')
    (ho : ∀ s', s ≠ s' → m'.sessions.get? s' = m.sessions.get? s')
    (hheld : ∀ id ∈ own.held, id ∈ own'.held)
    (hstage : ∀ id, StageEffect m s e own own' id)
    (hcall : e.1.session? = some s) (hends : e.1.ends? = none) (he : e.Rests) :
    Effect m e m' where
  coherent := hm
  next_le := Nat.le_of_eq hnext.symm
  leaves {s'} hne := leaves_of_same hrows (ho s' fun h => hne (h ▸ hcall))
  own {s₁ own₁} h hcall' _ := by
    obtain rfl := Option.some.inj (hcall.symm.trans hcall')
    obtain rfl := Option.some.inj (hs.symm.trans h)
    exact ⟨hrows, own', hs', hheld, hstage⟩
  back {s₁ own₁} h := by
    by_cases hne : s = s₁
    · exact Or.inl ⟨own, hne ▸ hs, ends_ne hends s₁⟩
    · exact Or.inl ⟨own₁, (ho s₁ hne).symm.trans h, ends_ne hends s₁⟩
  row _ := .of_rests he (by rw [hrows])

theorem effect_get {lock : Bool} {a : Except StoreError (Option Job)} (hm : m.Coherent)
    (hs : m.sessions.get? s = some own) (h : m.get s id lock = (some a, m')) :
    Effect m ⟨.get s id lock, a⟩ m' := by
  cases lock with
  | false =>
    obtain rfl : m = m' := (Prod.mk.inj h).2
    exact effect_quiet hm rfl (fun _ _ => rfl) ⟨rfl, fun _ => ⟨rfl, rfl⟩⟩
  | true =>
    have hnext := get_next m s id true
    have hheld := held_get hs id true
    rw [h] at hnext hheld
    obtain ⟨hc, hr, ho, ⟨_, rfl⟩ | ⟨held, _, _, _, hs', _⟩⟩ := get_cases hm hs h
    · exact effect_quiet hm rfl (fun _ _ => rfl) ⟨rfl, fun _ => ⟨rfl, rfl⟩⟩
    · rw [session_of_get? hs'] at hheld
      exact effect_session hc hnext hr hs hs' ho hheld (fun _ => .stays rfl rfl) rfl rfl
        ⟨rfl, fun _ => ⟨rfl, rfl⟩⟩

theorem effect_update {changes : Changes} {a : Except StoreError Nat} (hm : m.Coherent)
    (hs : m.sessions.get? s = some own) (h : m.update s id changes = (some a, m')) :
    Effect m ⟨.update s id changes, a⟩ m' := by
  have hnext := update_next m s id changes
  have hheld := held_update hs id changes
  rw [h] at hnext hheld
  obtain ⟨hc, hr, ho, ⟨rfl, rfl⟩ | ⟨held, j, hj, hid, hcase⟩⟩ := update_cases hm hs h
  · exact effect_quiet hm rfl (fun _ _ => rfl) ⟨rfl, fun _ => ⟨rfl, rfl⟩⟩
  rcases hcase with ⟨err, _, rfl, hs'⟩ | ⟨j', hj', rfl, hs'⟩
  · rw [session_of_get? hs'] at hheld
    exact effect_session hc hnext hr hs hs' ho hheld (fun _ => .stays rfl rfl) rfl rfl
      ⟨rfl, fun _ => ⟨rfl, rfl⟩⟩
  · rw [session_of_get? hs'] at hheld
    refine effect_session hc hnext hr hs hs' ho hheld (fun k => ?_) rfl rfl
      ⟨rfl, fun _ => ⟨rfl, rfl⟩⟩
    by_cases hk : id = k
    · subst hk
      exact .stages (if_pos ⟨rfl, rfl⟩) hj hj' ((Table.get?_set ..).trans (if_pos rfl)) hid
    · exact .stays (if_neg fun h => hk h.2) ((Table.get?_set ..).trans (if_neg hk))

theorem effect_commit (hm : m.Coherent) (hs : m.sessions.get? s = some own) :
    Effect m ⟨.commit s, .ok ()⟩ (m.commit s) where
  coherent := commit_coherent hm hs
  next_le := Nat.le_refl _
  leaves hne := commit_leaves hm hs fun e => hne (congrArg some e)
  own hs' hcall hend := by
    obtain rfl := Option.some.inj hcall
    exact absurd rfl hend
  back {s' own'} h := by
    rw [show (m.commit s).sessions.get? s' = if s = s' then none else m.sessions.get? s' from
      get?_close ..] at h
    split at h
    · simp at h
    · next hne => exact Or.inl ⟨own', h, fun e => hne (Option.some.inj e)⟩
  row id := .files rfl hs (get?_commit hm hs id)

/-- A session ends, and nothing is filed. -/
theorem effect_close (hm : m.Coherent) (hs : m.sessions.get? s = some own)
    (hcall : e.1.session? = some s) (hends : e.1.ends? = some s)
    (he : e.Rests) :
    Effect m e (m.close s) where
  coherent := close_coherent hm hs
  next_le := Nat.le_refl _
  leaves hne := close_leaves fun h => hne (h ▸ hcall)
  own hs' hcall' hend := by
    obtain rfl := Option.some.inj (hcall.symm.trans hcall')
    exact absurd hends hend
  back {s' own'} h := by
    rw [get?_close] at h
    split at h
    · simp at h
    · next hne => exact Or.inl ⟨own', h, fun h => hne (Option.some.inj (hends.symm.trans h))⟩
  row _ := .of_rests he rfl

theorem effect_begin (hm : m.Coherent) :
    Effect m ⟨.begin, .ok m.nextSession⟩ m.openSession.2 where
  coherent := openSession_coherent hm
  next_le := Nat.le_succ _
  leaves _ := openSession_leaves hm _
  own _ hcall _ := by simp [StoreCall.session?] at hcall
  back {s' own'} h := by
    change (m.sessions.set m.nextSession {}).get? s' = some own' at h
    rw [Table.get?_set] at h
    split at h
    · next e => exact Or.inr ⟨(Option.some.inj h).symm, Nat.le_of_eq e⟩
    · exact Or.inl ⟨own', h, ends_ne rfl s'⟩
  row _ := .stays rfl rfl rfl rfl

theorem effect_write {changes : Changes} {a : Except StoreError Nat} (hm : m.Coherent)
    (h : m.write id changes = (some a, m')) : Effect m ⟨.write id changes, a⟩ m' := by
  obtain ⟨hc, hnext, hs, hleaves, hcase⟩ := write_cases hm h
  refine ⟨hc, hnext, fun _ => hleaves _, fun _ hcall => ?_, fun {s' own'} h => ?_, fun k => ?_⟩
  · simp [StoreCall.session?] at hcall
  · exact Or.inl ⟨own', (hs s').symm.trans h, ends_ne rfl s'⟩
  · rcases hcase with ⟨hfail, hrows⟩ | ⟨j, j', rfl, hj, hj', hrows⟩
    · exact .stays rfl (Event.writes_failed k hfail) rfl (by rw [hrows])
    · by_cases hk : id = k
      · subst hk
        exact .writes rfl hj hj' ((hrows _).trans (if_pos rfl))
      · exact .stays rfl (if_neg hk) rfl ((hrows _).trans (if_neg hk))

theorem effect_insert (hm : m.Coherent) (j : Job) :
    Effect m ⟨.insert j, (m.insert j).1⟩ (m.insert j).2 := by
  have hcoherent := insert_coherent hm j
  have hleaves := insert_leaves hm j
  rcases insert_cases m j with ⟨_, e⟩ | ⟨hnew, e⟩ <;> rw [e] at hcoherent hleaves ⊢
  · exact effect_quiet hm rfl (fun _ _ => rfl) ⟨rfl, fun _ => ⟨rfl, rfl⟩⟩
  refine ⟨hcoherent, Nat.le_refl _, fun _ => hleaves _, fun _ hcall => ?_,
    fun {s' own'} hs => Or.inl ⟨own', hs, ends_ne rfl s'⟩, fun k => ?_⟩
  · simp [StoreCall.session?] at hcall
  · have hrow := Table.get?_set k j.id j m.rows
    by_cases hk : j.id = k
    · exact .inserts rfl hk (hk ▸ hnew) (hrow.trans (if_pos hk))
    · exact .stays rfl rfl (if_neg hk) (hrow.trans (if_neg hk))

/-- The wait for a lock was too long. -/
theorem effect_refused {c : StoreCall} (hm : m.Coherent) (hc : c.locks = true) (err : StoreError) :
    Effect m ⟨c, c.refuse err⟩ m := by
  cases c with
  | get s id lock => exact effect_quiet hm rfl (fun _ _ => rfl) ⟨rfl, fun _ => ⟨rfl, rfl⟩⟩
  | update s id changes => exact effect_quiet hm rfl (fun _ _ => rfl) ⟨rfl, fun _ => ⟨rfl, rfl⟩⟩
  | write id changes => exact effect_quiet hm rfl (fun _ _ => rfl) ⟨rfl, fun _ => ⟨rfl, rfl⟩⟩
  | _ => simp [StoreCall.locks] at hc

/-- Whatever is called, the answer does what was described. -/
theorem Serves.effect (hm : m.Coherent) (h : Serves wait m e m') : Effect m e m' := by
  cases h with
  | refused hadm h hwait =>
    obtain ⟨hlocks, rfl⟩ := perform_none h
    exact effect_refused hm hlocks _
  | @answered c a _ hadm h =>
    have hserves : Serves wait m ⟨c, a⟩ m' := .answered hadm h
    have hquiet {s : SessionId} (hs : m.isOpen s) (hcall : c.session? = some s)
        (hends : c.ends? = some s) {a : c.Answer} (he : Event.Rests ⟨c, a⟩) :
        Effect m ⟨c, a⟩ (m.close s) := by
      obtain ⟨own, hs⟩ := isOpen_iff.mp hs
      exact effect_close hm hs hcall hends he
    cases c with
    | begin =>
      obtain ⟨rfl, rfl⟩ := hserves.at_once rfl
      exact effect_begin hm
    | get s id lock =>
      obtain ⟨own, hs⟩ := isOpen_iff.mp (hadm s rfl)
      exact effect_get hm hs h
    | update s id changes =>
      obtain ⟨own, hs⟩ := isOpen_iff.mp (hadm s rfl)
      exact effect_update hm hs h
    | commit s =>
      obtain ⟨rfl, rfl⟩ := hserves.at_once rfl
      obtain ⟨own, hs⟩ := isOpen_iff.mp (hadm s rfl)
      exact effect_commit hm hs
    | rollback s =>
      obtain ⟨rfl, rfl⟩ := hserves.at_once rfl
      exact hquiet (hadm s rfl) rfl rfl ⟨rfl, fun _ => ⟨rfl, rfl⟩⟩
    | discard s =>
      obtain ⟨rfl, rfl⟩ := hserves.at_once rfl
      exact hquiet (hadm s rfl) rfl rfl ⟨rfl, fun _ => ⟨rfl, rfl⟩⟩
    | read id =>
      obtain ⟨rfl, rfl⟩ := hserves.at_once rfl
      exact effect_quiet hm rfl (fun _ _ => rfl) ⟨rfl, fun _ => ⟨rfl, rfl⟩⟩
    | write id changes => exact effect_write hm h
    | list q =>
      obtain ⟨rfl, rfl⟩ := hserves.at_once rfl
      exact effect_quiet hm rfl (fun _ _ => rfl) ⟨rfl, fun _ => ⟨rfl, rfl⟩⟩
    | insert j =>
      obtain ⟨rfl, rfl⟩ := hserves.at_once rfl
      exact effect_insert hm j

/-- Rows are never removed. -/
theorem Effect.row_stays (h : Effect m e m') (hrow : ∃ j, m.rows.get? id = some j) :
    ∃ j, m'.rows.get? id = some j := by
  obtain ⟨j, hj⟩ := hrow
  cases h.row id with
  | stays _ _ _ hsame => exact ⟨j, hsame.trans hj⟩
  | @files s own _ _ hfiled =>
    rw [hfiled, hj]
    cases own.staged.get? id with
    | none => exact ⟨j, rfl⟩
    | some j' => exact ⟨j', rfl⟩
  | writes _ _ _ hj' => exact ⟨_, hj'⟩
  | inserts _ _ _ hj' => exact ⟨_, hj'⟩

/-! ## runs -/

theorem Serves.admits (h : Serves wait m e m') : m.Admits e.1 := by
  cases h with
  | answered h _ => exact h
  | refused h _ _ => exact h

theorem Trace.coherent {xs : List Event} (h : Trace wait m₀ xs m) (h₀ : m₀.Coherent) :
    m.Coherent := by
  induction h with
  | start => exact h₀
  | next _ hs ih => exact (hs.effect ih).coherent

/-- The store behind calls of others, none of them through the session `o`. -/
inductive Drifts (wait : Nat) (o : Option SessionId) (m : Memory) : Memory → Prop
  | refl : Drifts wait o m m
  | step {m₁ m₂ : Memory} {e : Event} : Drifts wait o m m₁ → Serves wait m₁ e m₂ →
    (∀ s, o = some s → e.1.session? ≠ some s) → Drifts wait o m m₂

theorem Drifts.leaves {o : Option SessionId} (h : m.Drifts wait o m') (hm : m.Coherent) :
    m'.Coherent ∧ ∀ s, o = some s → Leaves s m m' := by
  induction h with
  | refl => exact ⟨hm, fun s _ => .refl s m⟩
  | step _ he hne ih =>
    obtain ⟨hc, hl⟩ := ih
    have heffect := he.effect hc
    exact ⟨heffect.coherent, fun s hs => (hl s hs).trans (heffect.leaves (hne s hs))⟩

theorem Drifts.row_stays {o : Option SessionId} (h : m.Drifts wait o m') (hm : m.Coherent)
    (hrow : ∃ j, m.rows.get? id = some j) : ∃ j, m'.rows.get? id = some j := by
  induction h with
  | refl => exact hrow
  | step hbefore he _ ih => exact (he.effect (hbefore.leaves hm).1).row_stays ih

/-- What a script makes of the empty store is coherent. -/
theorem coherent_of_serveAll (cs : List StoreCall)
    (h : (serveAll {} cs).map Prod.snd = some m) : m.Coherent := by
  obtain ⟨xs, m, htrace, rfl⟩ := trace_of_serveAll cs (fun _ m => m) h
  exact htrace.coherent quiet_empty.coherent

end JobEngine.Memory
