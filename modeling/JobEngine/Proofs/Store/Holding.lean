import JobEngine.Proofs.Store.Effect

/-!
# What is held, and for how long

The lock table names an open session exactly for the rows that the session lists, and a session
that holds a row sees no changes of it but its own.

* `Coherent.locked_iff_held`   the lock table and the lists of the sessions;
* `Effect.current`             what one answer does to a row that is held;
* `Trace.current`              the same of a run;
* `rows_are_held_by_sessions`  all of it, for every run.
-/

namespace JobEngine.Memory

variable {wait : Nat} {m m' : Memory} {s : SessionId} {own : Session} {id : JobId} {e : Event}

/-! ## the lock table -/

theorem Coherent.locked_iff_held (hm : m.Coherent) :
    m.locks.get? id = some s ↔ m.isOpen s ∧ id ∈ (m.session s).held := by
  rw [hm.locked_iff, isOpen_iff]
  constructor
  · rintro ⟨own, hs, hid⟩
    rw [session_of_get? hs]
    exact ⟨⟨own, hs⟩, hid⟩
  · rintro ⟨⟨own, hs⟩, hid⟩
    rw [session_of_get? hs] at hid
    exact ⟨own, hs, hid⟩

theorem Coherent.locked_row (hm : m.Coherent) (h : m.locks.get? id = some s) :
    ∃ j, m.rows.get? id = some j := by
  obtain ⟨own, hs, hid⟩ := hm.locked_iff.mp h
  exact hm.held_row hs hid

theorem Coherent.staged_is_held (hm : m.Coherent) {j : Job}
    (h : (m.session s).staged.get? id = some j) : id ∈ (m.session s).held := by
  cases hs : m.sessions.get? s with
  | none =>
    have hno : m.session s = {} := by simp [session, hs]
    rw [hno] at h
    simp at h
  | some own =>
    rw [session_of_get? hs] at h ⊢
    exact (hm.staged_held hs h).1

theorem Coherent.lockedRows_eq_zero (hm : m.Coherent) (h : ∀ s, ¬ m.isOpen s) :
    m.lockedRows = 0 := by
  unfold lockedRows
  cases hl : m.locks with
  | nil => rfl
  | cons e locks =>
    obtain ⟨id, s⟩ := e
    have hid : m.locks.get? id = some s := by rw [hl, Table.get?_cons, if_pos rfl]
    exact absurd (hm.locked_iff_held.mp hid).1 (h s)

/-! ## a row that is held -/

/-- One answer leaves a row that is held to its session, which sees it as before but for a change
of its own. -/
theorem Effect.current {j : Job} (h : Effect m e m') (hs : m.sessions.get? s = some own)
    (hid : id ∈ own.held) (hend : e.1.ends? ≠ some s) (hj : m.current s id = some j) :
    ∃ own' j', m'.sessions.get? s = some own' ∧ id ∈ own'.held ∧ m'.current s id = some j' ∧
      Changes.applyAll (e.changes s id).toList j = .ok j' := by
  rw [current_eq hs] at hj
  by_cases hcall : e.1.session? = some s
  · obtain ⟨hrows, own', hs', hheld, hstage⟩ := h.own hs hcall hend
    rw [current_eq hs', hrows]
    cases hstage id with
    | stays hno hsame =>
      rw [hno, hsame]
      exact ⟨own', j, hs', hheld id hid, hj, rfl⟩
    | @stages c j₁ j' hc hj₁ hap hsame hid' =>
      obtain rfl := Option.some.inj (hj₁.symm.trans hj)
      rw [hc, hsame]
      exact ⟨own', j', hs', hid', rfl, (Changes.applyAll_one c _).trans hap⟩
  · obtain ⟨hs', hrows⟩ := h.leaves hcall own hs
    have hno : e.changes s id = none := Event.changes_eq_none hcall
    rw [current_eq hs', hrows id hid, hno]
    exact ⟨own, j, hs', hid, hj, rfl⟩

/-- Until a session ends it keeps what it holds, and sees of it what its own changes made. -/
theorem Trace.current {xs : List Event} {j : Job} (h : Trace wait m xs m') (hm : m.Coherent)
    (hs : m.sessions.get? s = some own) (hid : id ∈ own.held) (hj : m.current s id = some j)
    (hends : ∀ e ∈ xs, e.1.ends? ≠ some s) :
    ∃ own' j', m'.sessions.get? s = some own' ∧ id ∈ own'.held ∧ m'.current s id = some j' ∧
      Changes.applyAll (xs.filterMap (Event.changes s id)) j = .ok j' := by
  induction h with
  | start => exact ⟨own, j, hs, hid, hj, rfl⟩
  | @next xs m' m'' e h he ih =>
    obtain ⟨own', j', hs', hid', hj', hall⟩ :=
      ih fun e he => hends e (List.mem_append_left _ he)
    have heffect := he.effect (h.coherent hm)
    obtain ⟨own'', j'', hs'', hid'', hj'', hone⟩ :=
      heffect.current hs' hid' (hends e (by simp)) hj'
    refine ⟨own'', j'', hs'', hid'', hj'', ?_⟩
    rw [List.filterMap_append, Changes.applyAll_append, hall]
    rw [← hone]
    cases hc : e.changes s id <;> simp [hc, bind, Except.bind]

/-- Behind every run the rows that are locked are those that open sessions hold, each by one; what
is staged is held, and a lock needs a row and a session.  Until it ends, whoever holds a row reads
of it what its own changes made. -/
theorem rows_are_held_by_sessions {xs : List Event} (h : Trace wait {} xs m) :
    (∀ id s, m.locks.get? id = some s ↔ m.isOpen s ∧ id ∈ (m.session s).held) ∧
    (∀ id s s', m.isOpen s → m.isOpen s' → id ∈ (m.session s).held → id ∈ (m.session s').held →
      s = s') ∧
    (∀ id s j, (m.session s).staged.get? id = some j → id ∈ (m.session s).held) ∧
    (∀ id s, m.locks.get? id = some s → ∃ j, m.rows.get? id = some j) ∧
    ((∀ s, ¬ m.isOpen s) → m.lockedRows = 0) ∧
    ∀ id s, m.isOpen s → id ∈ (m.session s).held → ∃ j, m.current s id = some j ∧
      ∀ as bs lock a m', Trace wait m (as ++ ⟨.get s id lock, a⟩ :: bs) m' →
        (∀ e ∈ as, e.1.ends? ≠ some s) →
        ∃ j', a = .ok (some j') ∧
          Changes.applyAll (as.filterMap (Event.changes s id)) j = .ok j' := by
  have hm := h.coherent quiet_empty.coherent
  refine ⟨fun id s => hm.locked_iff_held, fun id s s' hs hs' hid hid' => ?_,
    fun id s j => hm.staged_is_held, fun id s => hm.locked_row, hm.lockedRows_eq_zero,
    fun id s hs hid => ?_⟩
  · have hl := hm.locked_iff_held.mpr ⟨hs, hid⟩
    have hl' := hm.locked_iff_held.mpr ⟨hs', hid'⟩
    exact Option.some.inj (hl.symm.trans hl')
  · obtain ⟨own, hs⟩ := isOpen_iff.mp hs
    rw [session_of_get? hs] at hid
    obtain ⟨r, hr⟩ := hm.held_row hs hid
    obtain ⟨j, hj⟩ : ∃ j, m.current s id = some j := by
      rw [current_eq hs, hr]
      cases own.staged.get? id with
      | none => exact ⟨r, rfl⟩
      | some j => exact ⟨j, rfl⟩
    refine ⟨j, hj, fun as bs lock a m' hrun hends => ?_⟩
    obtain ⟨m₁, m₂, has, hget, -⟩ := hrun.split rfl
    obtain ⟨own', j', hs', hid', hj', hall⟩ := has.current hm hs hid hj hends
    rcases hget.get_answer (has.coherent hm) with rfl | ⟨-, hfree, -⟩
    · exact ⟨j', by rw [hj'], hall⟩
    · rw [session_of_get? hs'] at hfree
      exact absurd hid' hfree

/-- One session holds the row and is refused a change of it; another waits for the row in vain, as
does a write at once. -/
def contended : List StoreCall :=
  [.insert sample, .begin, .get 1 sample.id true, .begin, .get 2 sample.id true,
    .write sample.id { status := some .running }, .update 1 sample.id { trys := some 4 },
    .update 1 sample.id { trys := some 1 }]

theorem contended_row_is_held : ∃ xs m, Trace 0 {} xs m ∧ m.locks.get? sample.id = some 1 ∧
    m.isOpen 1 ∧ sample.id ∈ (m.session 1).held := by
  obtain ⟨xs, m, h, hlock⟩ := trace_of_serveAll contended
    (fun _ m => m.locks.get? sample.id) (v := some 1) (by decide)
  exact ⟨xs, m, h, hlock, ((rows_are_held_by_sessions h).1 _ _).mp hlock⟩

end JobEngine.Memory
