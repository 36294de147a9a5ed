import JobEngine.Store.Memory

/-!
# Row locks and sessions

A session that is open holds rows; the lock table says which.  Nothing is staged but under a lock,
so what a session holds is its own until it ends.

* `Memory.Coherent`   lock table, sessions and rows fit together;
* `Coherent.nodup_ids`, `Coherent.mem_values`   its rows, listed;
* `Memory.Quiet`      a store that no session is open on;
* `Memory.Leaves`     a session, and the rows it holds, were left alone;
* `get_cases`, `update_cases`   all that a locking read and a write of a session can do;
* `close_coherent`, `commit_coherent`, `close_leaves`, `commit_leaves`   the two ends of a session;
* `perform_rows`, `insert_cases`   the calls that change rows, and a new row.
-/

namespace JobEngine.Memory

/-- Lock table, open sessions and rows fit together. -/
structure Coherent (m : Memory) : Prop where
  rows_distinct : Table.Distinct m.rows
  locks_distinct : Table.Distinct m.locks
  filed {id : JobId} {j : Job} : m.rows.get? id = some j → j.id = id
  lt_next {s : SessionId} {own : Session} : m.sessions.get? s = some own → s < m.nextSession
  locked_iff {id : JobId} {s : SessionId} :
    m.locks.get? id = some s ↔ ∃ own, m.sessions.get? s = some own ∧ id ∈ own.held
  held_row {s : SessionId} {own : Session} {id : JobId} :
    m.sessions.get? s = some own → id ∈ own.held → ∃ j, m.rows.get? id = some j
  staged_distinct {s : SessionId} {own : Session} :
    m.sessions.get? s = some own → Table.Distinct own.staged
  staged_held {s : SessionId} {own : Session} {id : JobId} {j : Job} :
    m.sessions.get? s = some own → own.staged.get? id = some j → id ∈ own.held ∧ j.id = id

/-- A store at rest: records under their own identifiers, no session, no lock. -/
structure Quiet (m : Memory) : Prop where
  rows_distinct : Table.Distinct m.rows
  filed {id : JobId} {j : Job} : m.rows.get? id = some j → j.id = id
  no_lock : m.locks = []
  no_session : m.sessions = []

theorem Quiet.coherent {m : Memory} (h : m.Quiet) : m.Coherent where
  rows_distinct := h.rows_distinct
  locks_distinct := by rw [h.no_lock]; exact List.nodup_nil
  filed := h.filed
  lt_next hs := by rw [h.no_session] at hs; simp at hs
  locked_iff := by rw [h.no_lock, h.no_session]; simp
  held_row hs := by rw [h.no_session] at hs; simp at hs
  staged_distinct hs := by rw [h.no_session] at hs; simp at hs
  staged_held hs := by rw [h.no_session] at hs; simp at hs

theorem quiet_empty : Quiet {} where
  rows_distinct := List.nodup_nil
  filed h := by simp at h
  no_lock := rfl
  no_session := rfl

theorem session_of_get? {m : Memory} {s : SessionId} {own : Session}
    (h : m.sessions.get? s = some own) : m.session s = own := by
  simp [session, h]

/-- A row is held by one session at most. -/
theorem Coherent.holder_unique {m : Memory} (hm : m.Coherent) {s s' : SessionId}
    {own own' : Session} {id : JobId} (hs : m.sessions.get? s = some own) (hid : id ∈ own.held)
    (hs' : m.sessions.get? s' = some own') (hid' : id ∈ own'.held) : s = s' := by
  have h := hm.locked_iff.mpr ⟨own, hs, hid⟩
  have h' := hm.locked_iff.mpr ⟨own', hs', hid'⟩
  exact Option.some.inj (h.symm.trans h')

theorem Coherent.ids_eq {m : Memory} (hm : m.Coherent) :
    m.rows.values.map Job.id = m.rows.keys := by
  unfold Table.values Table.keys
  rw [List.map_map]
  refine List.map_congr_left fun e he => ?_
  exact hm.filed (Table.get?_of_mem hm.rows_distinct he)

theorem Coherent.nodup_ids {m : Memory} (hm : m.Coherent) :
    (m.rows.values.map Job.id).Nodup :=
  hm.ids_eq ▸ hm.rows_distinct

/-- The jobs of the store are its rows. -/
theorem Coherent.mem_values {m : Memory} (hm : m.Coherent) {j : Job} :
    j ∈ m.rows.values ↔ m.rows.get? j.id = some j := by
  constructor
  · intro hj
    obtain ⟨⟨id, j⟩, he, rfl⟩ := List.mem_map.mp hj
    have hrow := Table.get?_of_mem hm.rows_distinct he
    rwa [hm.filed hrow]
  · intro hj
    exact List.mem_map.mpr ⟨_, Table.mem_of_get? hj, rfl⟩

/-! ## what others leave alone -/

/-- If `s` was open, it still is, with all that it had staged, and the rows it holds are as they
were. -/
def Leaves (s : SessionId) (m m' : Memory) : Prop :=
  ∀ own, m.sessions.get? s = some own →
    m'.sessions.get? s = some own ∧ ∀ id ∈ own.held, m'.rows.get? id = m.rows.get? id

theorem Leaves.refl (s : SessionId) (m : Memory) : Leaves s m m :=
  fun _ h => ⟨h, fun _ _ => rfl⟩

theorem leaves_of_same {s : SessionId} {m m' : Memory} (hr : m'.rows = m.rows)
    (hs : m'.sessions.get? s = m.sessions.get? s) : Leaves s m m' := by
  intro own h
  exact ⟨hs.trans h, fun id _ => by rw [hr]⟩

/-! ## a new session -/

theorem openSession_coherent {m : Memory} (hm : m.Coherent) : m.openSession.2.Coherent := by
  have hget (s : SessionId) : m.openSession.2.sessions.get? s
      = if m.nextSession = s then some {} else m.sessions.get? s := Table.get?_set ..
  have hnew (own : Session) : m.sessions.get? m.nextSession ≠ some own :=
    fun h => Nat.lt_irrefl _ (hm.lt_next h)
  have hown {s : SessionId} {own : Session} (h : m.openSession.2.sessions.get? s = some own) :
      own = {} ∧ s = m.nextSession ∨ m.sessions.get? s = some own := by
    rw [hget] at h
    split at h
    · next e => injection h with h; exact Or.inl ⟨h.symm, e.symm⟩
    · exact Or.inr h
  refine ⟨hm.rows_distinct, hm.locks_distinct, hm.filed, ?_, ?_, ?_, ?_, ?_⟩
  · intro s own h
    show s < m.nextSession + 1
    rcases hown h with ⟨_, h⟩ | h
    · exact h ▸ Nat.lt_succ_self _
    · exact Nat.lt_succ_of_lt (hm.lt_next h)
  · intro id s
    show m.locks.get? id = some s ↔ _
    rw [hm.locked_iff]
    constructor
    · rintro ⟨own, hs, hid⟩
      refine ⟨own, ?_, hid⟩
      rw [hget, if_neg]
      · exact hs
      · intro e
        exact hnew own (e ▸ hs)
    · rintro ⟨own, hs, hid⟩
      rcases hown hs with ⟨rfl, _⟩ | hs
      · simp at hid
      · exact ⟨own, hs, hid⟩
  · intro s own id hs hid
    rcases hown hs with ⟨rfl, _⟩ | hs
    · simp at hid
    · exact hm.held_row hs hid
  · intro s own hs
    rcases hown hs with ⟨rfl, _⟩ | hs
    · exact List.nodup_nil
    · exact hm.staged_distinct hs
  · intro s own id j hs hj
    rcases hown hs with ⟨rfl, _⟩ | hs
    · simp at hj
    · exact hm.staged_held hs hj

theorem openSession_leaves {m : Memory} (hm : m.Coherent) (s : SessionId) :
    Leaves s m m.openSession.2 := by
  intro own h
  have hne : m.nextSession ≠ s := fun e => Nat.lt_irrefl _ (e ▸ hm.lt_next h)
  refine ⟨?_, fun _ _ => rfl⟩
  show (m.sessions.set m.nextSession {}).get? s = some own
  rw [Table.get?_set, if_neg hne]
  exact h

theorem get?_openSession (m : Memory) : m.openSession.2.sessions.get? m.nextSession = some {} := by
  show (m.sessions.set m.nextSession {}).get? m.nextSession = some {}
  rw [Table.get?_set, if_pos rfl]

/-! ## taking a lock -/

/-- The store behind a lock that was free and is taken. -/
def grant (m : Memory) (s : SessionId) (id : JobId) : Memory :=
  { m with
    locks := m.locks.set id s
    sessions := m.sessions.set s { m.session s with held := (m.session s).held ++ [id] } }

/-- The store behind a record that was staged. -/
def stage (m : Memory) (s : SessionId) (id : JobId) (j : Job) : Memory :=
  { m with
    sessions := m.sessions.set s { m.session s with staged := (m.session s).staged.set id j } }

theorem acquire_cases (m : Memory) (s : SessionId) (id : JobId) :
    (id ∈ (m.session s).held ∧ m.acquire s id = (.held, m)) ∨
    (m.rows.get? id = none ∧ m.acquire s id = (.absent, m)) ∨
    m.acquire s id = (.busy, m) ∨
    (m.locks.get? id = none ∧ (∃ j, m.rows.get? id = some j) ∧
      m.acquire s id = (.held, m.grant s id)) := by
  unfold acquire
  by_cases hh : id ∈ (m.session s).held
  · exact Or.inl ⟨hh, by simp [hh]⟩
  · refine Or.inr ?_
    cases hr : m.rows.get? id with
    | none => exact Or.inl ⟨rfl, by simp [hh, Table.contains, hr]⟩
    | some j =>
      refine Or.inr ?_
      cases hl : m.locks.get? id with
      | some s' => exact Or.inl (by simp [hh, Table.contains, hr, hl])
      | none => exact Or.inr ⟨rfl, ⟨j, rfl⟩, by simp [hh, Table.contains, hr, hl, grant]⟩

section
variable {m : Memory} {s : SessionId} {own : Session} {id : JobId}

theorem get?_grant (hs : m.sessions.get? s = some own) (s' : SessionId) :
    (m.grant s id).sessions.get? s'
      = if s = s' then some { own with held := own.held ++ [id] } else m.sessions.get? s' := by
  show (m.sessions.set s _).get? s' = _
  rw [Table.get?_set, session_of_get? hs]

theorem get?_stage (hs : m.sessions.get? s = some own) (j : Job) (s' : SessionId) :
    (m.stage s id j).sessions.get? s'
      = if s = s' then some { own with staged := own.staged.set id j }
        else m.sessions.get? s' := by
  show (m.sessions.set s _).get? s' = _
  rw [Table.get?_set, session_of_get? hs]

theorem grant_coherent (hm : m.Coherent) (hs : m.sessions.get? s = some own)
    (hl : m.locks.get? id = none) (hr : ∃ j, m.rows.get? id = some j) :
    (m.grant s id).Coherent := by
  have hlock (k : JobId) : (m.grant s id).locks.get? k
      = if id = k then some s else m.locks.get? k := Table.get?_set ..
  refine ⟨hm.rows_distinct, Table.distinct_set _ _ hm.locks_distinct, hm.filed, ?_, ?_, ?_, ?_, ?_⟩
  · intro s' own' h
    rw [get?_grant hs] at h
    split at h
    · next e => exact e ▸ hm.lt_next hs
    · exact hm.lt_next h
  · intro k s'
    rw [hlock, get?_grant hs]
    by_cases hk : id = k
    · subst hk
      rw [if_pos rfl]
      constructor
      · intro e
        injection e with e
        exact ⟨_, if_pos e, by simp⟩
      · rintro ⟨own', h, hid⟩
        split at h
        · next e => rw [e]
        · have := hm.locked_iff.mpr ⟨own', h, hid⟩
          rw [hl] at this
          simp at this
    · rw [if_neg hk, hm.locked_iff]
      by_cases e : s = s'
      · subst e
        rw [hs, if_pos rfl]
        simp [Ne.symm hk]
      · rw [if_neg e]
  · intro s' own' k h hk
    rw [get?_grant hs] at h
    split at h
    · injection h with h
      subst h
      rcases List.mem_append.mp hk with hk | hk
      · exact hm.held_row hs hk
      · rw [List.mem_singleton] at hk
        exact hk ▸ hr
    · exact hm.held_row h hk
  · intro s' own' h
    rw [get?_grant hs] at h
    split at h
    · injection h with h
      subst h
      exact (hm.staged_distinct hs : Table.Distinct own.staged)
    · exact hm.staged_distinct h
  · intro s' own' k j h hj
    rw [get?_grant hs] at h
    split at h
    · injection h with h
      subst h
      exact ⟨List.mem_append_left _ (hm.staged_held hs hj).1, (hm.staged_held hs hj).2⟩
    · exact hm.staged_held h hj

theorem stage_coherent (hm : m.Coherent) (hs : m.sessions.get? s = some own)
    (hid : id ∈ own.held) {j : Job} (hj : j.id = id) : (m.stage s id j).Coherent := by
  refine ⟨hm.rows_distinct, hm.locks_distinct, hm.filed, ?_, ?_, ?_, ?_, ?_⟩
  · intro s' own' h
    rw [get?_stage hs] at h
    split at h
    · next e => exact e ▸ hm.lt_next hs
    · exact hm.lt_next h
  · intro k s'
    show m.locks.get? k = some s' ↔ _
    rw [hm.locked_iff, get?_stage hs]
    by_cases e : s = s'
    · subst e
      rw [hs, if_pos rfl]
      simp
    · rw [if_neg e]
  · intro s' own' k h hk
    rw [get?_stage hs] at h
    split at h
    · injection h with h
      subst h
      exact hm.held_row hs hk
    · exact hm.held_row h hk
  · intro s' own' h
    rw [get?_stage hs] at h
    split at h
    · injection h with h
      subst h
      exact Table.distinct_set _ _ (hm.staged_distinct hs)
    · exact hm.staged_distinct h
  · intro s' own' k j' h hj'
    rw [get?_stage hs] at h
    split at h
    · injection h with h
      subst h
      change (own.staged.set id j).get? k = some j' at hj'
      show k ∈ own.held ∧ j'.id = k
      rw [Table.get?_set] at hj'
      split at hj'
      · next e =>
        injection hj' with hj'
        subst hj'
        exact ⟨e ▸ hid, hj.trans e⟩
      · exact hm.staged_held hs hj'
    · exact hm.staged_held h hj'

/-- What a session sees of a row is filed under the row's identifier. -/
theorem seen_id (hm : m.Coherent) (hs : m.sessions.get? s = some own) {j : Job}
    (h : (own.staged.get? id).or (m.rows.get? id) = some j) : j.id = id := by
  rcases Option.or_eq_some_iff.mp h with h | ⟨_, h⟩
  · exact (hm.staged_held hs h).2
  · exact hm.filed h

/-- Behind a lock that is held nothing else has changed, and the session sees a record. -/
theorem acquire_held {m' : Memory} (hm : m.Coherent) (hs : m.sessions.get? s = some own)
    (h : m.acquire s id = (.held, m')) :
    m'.Coherent ∧ m'.rows = m.rows ∧
    (∀ s', s ≠ s' → m'.sessions.get? s' = m.sessions.get? s') ∧
    ∃ held j, m'.sessions.get? s = some { own with held } ∧ id ∈ held ∧
      (own.staged.get? id).or (m.rows.get? id) = some j ∧ m'.current s id = some j := by
  have hsees (held : List JobId) (hr : m'.rows = m.rows) (hex : ∃ j, m.rows.get? id = some j)
      (h' : m'.sessions.get? s = some { own with held }) :
      ∃ j, (own.staged.get? id).or (m.rows.get? id) = some j ∧ m'.current s id = some j := by
    obtain ⟨j, hj⟩ := hex
    unfold current
    rw [session_of_get? h', hr, hj]
    cases own.staged.get? id with
    | none => exact ⟨j, rfl, rfl⟩
    | some j' => exact ⟨j', rfl, rfl⟩
  rcases acquire_cases m s id with ⟨hid, e⟩ | ⟨_, e⟩ | e | ⟨hl, hr, e⟩ <;> rw [e] at h
  · obtain rfl : m = m' := by simpa using h
    rw [session_of_get? hs] at hid
    obtain ⟨j, hj, hc⟩ := hsees own.held rfl (hm.held_row hs hid) hs
    exact ⟨hm, rfl, fun _ _ => rfl, own.held, j, hs, hid, hj, hc⟩
  · simp at h
  · simp at h
  · obtain rfl : m.grant s id = m' := by simpa using h
    have hs' : (m.grant s id).sessions.get? s = some { own with held := own.held ++ [id] } := by
      rw [get?_grant hs, if_pos rfl]
    obtain ⟨j, hj, hc⟩ := hsees _ rfl hr hs'
    refine ⟨grant_coherent hm hs hl hr, rfl, fun s' hne => ?_, _, j, hs', by simp, hj, hc⟩
    rw [get?_grant hs, if_neg hne]

theorem acquire_not_held {m' : Memory} {r : Claim} (h : m.acquire s id = (r, m'))
    (hr : r ≠ .held) : m' = m := by
  rcases acquire_cases m s id with ⟨_, e⟩ | ⟨_, e⟩ | e | ⟨_, _, e⟩ <;> rw [e] at h <;>
    injection h with h1 h2
  · exact h2.symm
  · exact h2.symm
  · exact h2.symm
  · exact absurd h1.symm hr

/-- All that a locking read can do: find no row, or give the record under the lock. -/
theorem get_cases {m' : Memory} {a : Except StoreError (Option Job)} (hm : m.Coherent)
    (hs : m.sessions.get? s = some own) (h : m.get s id true = (some a, m')) :
    m'.Coherent ∧ m'.rows = m.rows ∧
    (∀ s', s ≠ s' → m'.sessions.get? s' = m.sessions.get? s') ∧
    ((a = .ok none ∧ m' = m) ∨
      ∃ held j, a = .ok (some j) ∧ (own.staged.get? id).or (m.rows.get? id) = some j ∧
        m'.sessions.get? s = some { own with held } ∧ id ∈ held) := by
  unfold get at h
  rw [if_pos rfl] at h
  split at h
  · next m₁ e =>
    obtain ⟨rfl, rfl⟩ : _ ∧ m₁ = m' := by simpa using h
    obtain ⟨hc, hr, ho, held, j, hs', hid, hj, hcur⟩ := acquire_held hm hs e
    exact ⟨hc, hr, ho, Or.inr ⟨held, j, by rw [hcur], hj, hs', hid⟩⟩
  · next m₁ e =>
    obtain ⟨rfl, rfl⟩ : _ ∧ m₁ = m' := by simpa using h
    obtain rfl := acquire_not_held e (by decide)
    exact ⟨hm, rfl, fun _ _ => rfl, Or.inl ⟨rfl, rfl⟩⟩
  · simp at h

/-- All that a write of a session can do: find no row, be refused, or stage the record. -/
theorem update_cases {m' : Memory} {changes : Changes} {a : Except StoreError Nat}
    (hm : m.Coherent) (hs : m.sessions.get? s = some own)
    (h : m.update s id changes = (some a, m')) :
    m'.Coherent ∧ m'.rows = m.rows ∧
    (∀ s', s ≠ s' → m'.sessions.get? s' = m.sessions.get? s') ∧
    ((a = .ok 0 ∧ m' = m) ∨
      ∃ held j, (own.staged.get? id).or (m.rows.get? id) = some j ∧ id ∈ held ∧
        ((∃ e, changes.apply j = .error e ∧ a = .error (.constraint e.message) ∧
            m'.sessions.get? s = some { own with held }) ∨
          ∃ j', changes.apply j = .ok j' ∧ a = .ok 1 ∧
            m'.sessions.get? s = some ⟨own.staged.set id j', held⟩)) := by
  unfold update at h
  split at h
  · simp at h
  · next m₁ e =>
    obtain ⟨rfl, rfl⟩ : _ ∧ m₁ = m' := by simpa using h
    obtain rfl := acquire_not_held e (by decide)
    exact ⟨hm, rfl, fun _ _ => rfl, Or.inl ⟨rfl, rfl⟩⟩
  · next m₁ e =>
    obtain ⟨hc, hr, ho, held, j, hs', hid, hj, hcur⟩ := acquire_held hm hs e
    rw [hcur] at h
    dsimp only at h
    split at h
    · next err hap =>
      obtain ⟨rfl, rfl⟩ : _ ∧ m₁ = m' := by simpa using h
      exact ⟨hc, hr, ho, Or.inr ⟨held, j, hj, hid, Or.inl ⟨err, hap, rfl, hs'⟩⟩⟩
    · next j' hap =>
      obtain ⟨rfl, rfl⟩ : _ ∧ m₁.stage s id j' = m' := by simpa [stage] using h
      have hj' : j'.id = id := by
        rw [← (Changes.apply_eq_ok_iff.mp hap).2, Changes.overwrite_id]
        exact seen_id hm hs hj
      refine ⟨stage_coherent hc hs' hid hj', hr, fun s' hne => ?_,
        Or.inr ⟨held, j, hj, hid, Or.inr ⟨j', hap, rfl, ?_⟩⟩⟩
      · rw [get?_stage hs', if_neg hne, ho s' hne]
      · rw [get?_stage hs', if_pos rfl]

/-! ## the end of a session -/

theorem get?_close (s s' : SessionId) :
    (m.close s).sessions.get? s' = if s = s' then none else m.sessions.get? s' :=
  Table.get?_erase ..

theorem close_coherent (hm : m.Coherent) (hs : m.sessions.get? s = some own) :
    (m.close s).Coherent := by
  have hown := session_of_get? hs
  have hlock (k : JobId) : (m.close s).locks.get? k = (m.locks.get? k).filter
      fun o => !(decide (k ∈ own.held) && decide (o = s)) := by
    show Table.get? k (m.locks.filter _) = _
    rw [Table.get?_filter hm.locks_distinct, hown]
  have hkeep {s' : SessionId} {own' : Session} (h : (m.close s).sessions.get? s' = some own') :
      s ≠ s' ∧ m.sessions.get? s' = some own' := by
    rw [get?_close] at h
    split at h
    · simp at h
    · next hne => exact ⟨hne, h⟩
  refine ⟨hm.rows_distinct, Table.distinct_filter _ hm.locks_distinct, hm.filed,
    fun h => hm.lt_next (hkeep h).2, ?_, fun h hk => hm.held_row (hkeep h).2 hk,
    fun h => hm.staged_distinct (hkeep h).2, fun h hj => hm.staged_held (hkeep h).2 hj⟩
  intro k s'
  rw [hlock, get?_close, Option.filter_eq_some_iff, hm.locked_iff]
  constructor
  · rintro ⟨⟨own', hs', hk⟩, hfree⟩
    refine ⟨own', ?_, hk⟩
    rw [if_neg]
    · exact hs'
    · rintro rfl
      rw [hs] at hs'
      injection hs' with hs'
      subst hs'
      simp [hk] at hfree
  · rintro ⟨own', hs', hk⟩
    split at hs'
    · simp at hs'
    · next hne => exact ⟨⟨own', hs', hk⟩, by simp [Ne.symm hne]⟩

theorem close_leaves {s' : SessionId} (hne : s ≠ s') : Leaves s' m (m.close s) :=
  leaves_of_same rfl (by rw [get?_close, if_neg hne])

theorem get?_commit (hm : m.Coherent) (hs : m.sessions.get? s = some own) (k : JobId) :
    (m.commit s).rows.get? k = (own.staged.get? k).or (m.rows.get? k) := by
  show ((m.session s).staged.setAll m.rows).get? k = _
  rw [session_of_get? hs, Table.get?_setAll (hm.staged_distinct hs)]

theorem commit_coherent (hm : m.Coherent) (hs : m.sessions.get? s = some own) :
    (m.commit s).Coherent := by
  have hfiled : Coherent { m with rows := own.staged.setAll m.rows } := by
    have hrow (k : JobId) : (own.staged.setAll m.rows).get? k
        = (own.staged.get? k).or (m.rows.get? k) := Table.get?_setAll (hm.staged_distinct hs) ..
    refine ⟨Table.distinct_setAll hm.rows_distinct, hm.locks_distinct, ?_, hm.lt_next,
      hm.locked_iff, ?_, hm.staged_distinct, hm.staged_held⟩
    · intro k j h
      rw [hrow, Option.or_eq_some_iff] at h
      rcases h with h | ⟨_, h⟩
      · exact (hm.staged_held hs h).2
      · exact hm.filed h
    · intro s' own' k hs' hk
      obtain ⟨j, hj⟩ := hm.held_row hs' hk
      rw [hrow, hj]
      cases own.staged.get? k with
      | none => exact ⟨j, rfl⟩
      | some j' => exact ⟨j', rfl⟩
  have h := close_coherent (s := s) hfiled hs
  unfold commit
  rw [session_of_get? hs]
  exact h

theorem commit_leaves (hm : m.Coherent) (hs : m.sessions.get? s = some own) {s' : SessionId}
    (hne : s ≠ s') : Leaves s' m (m.commit s) := by
  intro own' h
  refine ⟨?_, fun k hk => ?_⟩
  · show (Memory.close _ s).sessions.get? s' = some own'
    rw [get?_close, if_neg hne]
    exact h
  · rw [get?_commit hm hs]
    cases hst : own.staged.get? k with
    | none => rfl
    | some j => exact absurd (hm.holder_unique hs (hm.staged_held hs hst).1 h hk) hne

/-! ## rows that stay -/

theorem acquire_rows (m : Memory) (s : SessionId) (id : JobId) :
    (m.acquire s id).2.rows = m.rows := by
  rcases acquire_cases m s id with ⟨_, e⟩ | ⟨_, e⟩ | e | ⟨_, _, e⟩ <;> rw [e]
  rfl

theorem get_rows (m : Memory) (s : SessionId) (id : JobId) (lock : Bool) :
    (m.get s id lock).2.rows = m.rows := by
  have h := acquire_rows m s id
  unfold get
  split
  · split <;> next e => rw [e] at h; exact h
  · rfl

theorem update_rows (m : Memory) (s : SessionId) (id : JobId) (changes : Changes) :
    (m.update s id changes).2.rows = m.rows := by
  have h := acquire_rows m s id
  unfold update
  split
  · next e => rw [e] at h; exact h
  · next e => rw [e] at h; exact h
  · next e =>
    rw [e] at h
    split
    · exact h
    · split <;> exact h

/-- Rows change when a session is committed, when a row is written at once and when one is new. -/
theorem perform_rows (m : Memory) (c : StoreCall) :
    (m.perform c).2.rows = m.rows ∨ (∃ s, c = .commit s) ∨ (∃ id changes, c = .write id changes) ∨
      ∃ j, c = .insert j := by
  cases c with
  | get s id lock => exact Or.inl (get_rows m s id lock)
  | update s id changes => exact Or.inl (update_rows m s id changes)
  | commit s => exact Or.inr (Or.inl ⟨s, rfl⟩)
  | write id changes => exact Or.inr (Or.inr (Or.inl ⟨id, changes, rfl⟩))
  | insert j => exact Or.inr (Or.inr (Or.inr ⟨j, rfl⟩))
  | _ => exact Or.inl rfl

/-! ## a new row -/

theorem insert_cases (m : Memory) (j : Job) :
    (∃ j', m.rows.get? j.id = some j') ∧ m.insert j = (.error (.alreadyExists j.id), m) ∨
    m.rows.get? j.id = none ∧ m.insert j = (.ok j.id, { m with rows := m.rows.set j.id j }) := by
  unfold insert
  cases h : m.rows.get? j.id with
  | some j' => exact Or.inl ⟨⟨j', rfl⟩, by simp [Table.contains, h]⟩
  | none => exact Or.inr ⟨rfl, by simp [Table.contains, h]⟩

theorem insert_coherent (hm : m.Coherent) (j : Job) : (m.insert j).2.Coherent := by
  rcases insert_cases m j with ⟨_, e⟩ | ⟨_, e⟩ <;> rw [e]
  · exact hm
  · refine ⟨Table.distinct_set _ _ hm.rows_distinct, hm.locks_distinct, ?_, hm.lt_next,
      hm.locked_iff, ?_, hm.staged_distinct, hm.staged_held⟩
    · intro k j' h
      change (m.rows.set j.id j).get? k = some j' at h
      rw [Table.get?_set] at h
      split at h
      · next hk => injection h with h; rw [← h, hk]
      · exact hm.filed h
    · intro s own k hs hk
      show ∃ j', (m.rows.set j.id j).get? k = some j'
      rw [Table.get?_set]
      split
      · exact ⟨j, rfl⟩
      · exact hm.held_row hs hk

theorem insert_leaves (hm : m.Coherent) (j : Job) (s : SessionId) :
    Leaves s m (m.insert j).2 := by
  rcases insert_cases m j with ⟨_, e⟩ | ⟨hnew, e⟩ <;> rw [e]
  · exact .refl s m
  · intro own hs
    refine ⟨hs, fun k hk => ?_⟩
    obtain ⟨j', hj'⟩ := hm.held_row hs hk
    show (m.rows.set j.id j).get? k = _
    rw [Table.get?_set, if_neg]
    rintro rfl
    rw [hnew] at hj'
    simp at hj'

end

end JobEngine.Memory
