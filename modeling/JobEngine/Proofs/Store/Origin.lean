import JobEngine.Proofs.Store.Ledger

/-!
# What a row keeps from its insert

Changes do not name who a job belongs to, what it is and how often it may be tried, and they never
lift its attempts above that.  As every row is a record that was inserted, with changes, this holds
of all that is filed and of all that a session has staged.

* `Job.SameOrigin`          the fields that stand from the insert on;
* `Changes.apply_keeps`, `applyAll_keeps`   changes keep them, and the bound on the attempts;
* `Recorded.row_keeps`, `Recorded.staged_keeps`   so do a row and what is staged of it;
* `Trace.row_stays`         a row stays, with its origin, whatever comes;
* `insert_fills_or_fails`   an insert makes a new row or changes nothing;
* `records_keep_their_origin`   all of it, for every run.
-/

namespace JobEngine

/-- The fields of a record that stand from its insert on. -/
structure Job.SameOrigin (j j' : Job) : Prop where
  id : j'.id = j.id
  project : j'.project = j.project
  action : j'.action = j.action
  tryPeriod : j'.tryPeriod = j.tryPeriod
  tryMax : j'.tryMax = j.tryMax
  created : j'.created = j.created

namespace Job.SameOrigin

variable {j j' j'' : Job}

theorem refl (j : Job) : j.SameOrigin j := ⟨rfl, rfl, rfl, rfl, rfl, rfl⟩

theorem symm (h : j.SameOrigin j') : j'.SameOrigin j :=
  ⟨h.id.symm, h.project.symm, h.action.symm, h.tryPeriod.symm, h.tryMax.symm, h.created.symm⟩

theorem trans (h : j.SameOrigin j') (h' : j'.SameOrigin j'') : j.SameOrigin j'' :=
  ⟨h'.id.trans h.id, h'.project.trans h.project, h'.action.trans h.action,
    h'.tryPeriod.trans h.tryPeriod, h'.tryMax.trans h.tryMax, h'.created.trans h.created⟩

end Job.SameOrigin

namespace Changes

variable {c : Changes} {j j' : Job}

theorem sameOrigin_overwrite (c : Changes) (j : Job) : j.SameOrigin (c.overwrite j) :=
  ⟨rfl, rfl, rfl, rfl, rfl, rfl⟩

theorem trys_le_overwrite (ho : ¬ c.Oversteps j) (hj : j.trys ≤ j.tryMax) :
    (c.overwrite j).trys ≤ (c.overwrite j).tryMax := by
  rw [overwrite_tryMax]
  show c.trys.getD j.trys ≤ j.tryMax
  cases hc : c.trys with
  | none => exact hj
  | some n => exact UInt32.not_lt.mp fun hlt => ho ⟨n, hc, hlt⟩

/-- Changes that are not refused keep the origin and the bound on the attempts. -/
theorem apply_keeps (h : c.apply j = .ok j') :
    j.SameOrigin j' ∧ (j.trys ≤ j.tryMax → j'.trys ≤ j'.tryMax) := by
  obtain ⟨ho, rfl⟩ := apply_eq_ok_iff.mp h
  exact ⟨sameOrigin_overwrite c j, trys_le_overwrite ho⟩

theorem applyAll_keeps {cs : List Changes} (h : applyAll cs j = .ok j') :
    j.SameOrigin j' ∧ (j.trys ≤ j.tryMax → j'.trys ≤ j'.tryMax) := by
  induction cs generalizing j with
  | nil =>
    obtain rfl := Except.ok.inj h
    exact ⟨.refl j, fun hj => hj⟩
  | cons c cs ih =>
    obtain ⟨j₁, hone, hrest⟩ : ∃ j₁, c.apply j = .ok j₁ ∧ applyAll cs j₁ = .ok j' := by
      rw [← List.singleton_append, applyAll_append, applyAll_one] at h
      cases hc : c.apply j with
      | error err =>
        rw [hc] at h
        cases h
      | ok j₁ =>
        rw [hc] at h
        exact ⟨j₁, rfl, h⟩
    obtain ⟨hsame, hbound⟩ := apply_keeps hone
    obtain ⟨hsame', hbound'⟩ := ih hrest
    exact ⟨hsame.trans hsame', fun hj => hbound' (hbound hj)⟩

end Changes

namespace Memory

variable {wait : Nat} {m m' : Memory} {s : SessionId} {own : Session} {id : JobId} {xs ys : List Event}
  {j : Job}

/-- The record that a row began with comes from a call. -/
theorem mem_of_inserted (h : inserted id xs = some j) : ∃ k, ⟨.insert j, .ok k⟩ ∈ xs := by
  obtain ⟨e, he, hins⟩ := List.exists_of_findSome?_eq_some h
  unfold Event.inserts at hins
  split at hins
  · next j' k =>
    split at hins
    · obtain rfl := Option.some.inj hins
      exact ⟨k, he⟩
    · cases hins
  · cases hins

/-- A row is its first record with changes. -/
theorem Recorded.row_keeps (h : Recorded xs m) (hj : m.rows.get? id = some j) :
    ∃ j₀, inserted id xs = some j₀ ∧ j₀.SameOrigin j ∧ (j₀.trys ≤ j₀.tryMax → j.trys ≤ j.tryMax) := by
  obtain ⟨j₀, hj₀, hall⟩ := h.inserted_of_row hj
  obtain ⟨hsame, hbound⟩ := Changes.applyAll_keeps hall
  exact ⟨j₀, hj₀, hsame, hbound⟩

/-- What is staged is the row with changes. -/
theorem Recorded.staged_keeps (h : Recorded xs m) (hs : m.sessions.get? s = some own)
    (hst : own.staged.get? id = some j) :
    ∃ r, m.rows.get? id = some r ∧ r.SameOrigin j ∧ (r.trys ≤ r.tryMax → j.trys ≤ j.tryMax) := by
  obtain ⟨r, hr⟩ := h.coherent.held_row hs (h.coherent.staged_held hs hst).1
  have hall := h.seen hs hr
  rw [hst] at hall
  obtain ⟨hsame, hbound⟩ := Changes.applyAll_keeps hall
  exact ⟨r, hr, hsame, hbound⟩

theorem Trace.append (h : Trace wait {} xs m) (h' : Trace wait m ys m') :
    Trace wait {} (xs ++ ys) m' := by
  induction h' with
  | start => rwa [List.append_nil]
  | next _ hs ih => exact List.append_assoc xs _ _ ▸ ih.next hs

/-- Whatever comes, a row stays and keeps its origin. -/
theorem Trace.row_stays (h : Trace wait {} xs m) (h' : Trace wait m ys m')
    (hj : m.rows.get? id = some j) : ∃ j', m'.rows.get? id = some j' ∧ j.SameOrigin j' := by
  obtain ⟨j₀, hj₀, hsame, -⟩ := h.recorded.row_keeps hj
  have hinserted : inserted id (xs ++ ys) = some j₀ := by
    unfold inserted at hj₀ ⊢
    rw [List.findSome?_append, hj₀]
    rfl
  have hlater := (h.append h').recorded
  cases hj' : m'.rows.get? id with
  | none =>
    rw [hlater.no_row hj'] at hinserted
    cases hinserted
  | some j' =>
    obtain ⟨j₁, hj₁, hsame', -⟩ := hlater.row_keeps hj'
    obtain rfl := Option.some.inj (hinserted.symm.trans hj₁)
    exact ⟨j', rfl, hsame.symm.trans hsame'⟩

/-- An insert makes a new row, or it fails and changes nothing. -/
theorem insert_fills_or_fails {a : Except StoreError JobId}
    (h : Serves wait m ⟨.insert j, a⟩ m') :
    (∃ r, m.rows.get? j.id = some r) ∧ a = .error (.alreadyExists j.id) ∧ m' = m ∨
      m.rows.get? j.id = none ∧ a = .ok j.id ∧
        ∀ id, m'.rows.get? id = if j.id = id then some j else m.rows.get? id := by
  have hanswer : a = (m.insert j).1 ∧ m' = (m.insert j).2 := h.at_once rfl
  obtain ⟨ha, hm'⟩ := hanswer
  rcases insert_cases m j with ⟨hrow, heq⟩ | ⟨hrow, heq⟩
  · rw [heq] at ha hm'
    exact .inl ⟨hrow, ha, hm'⟩
  · rw [heq] at ha hm'
    subst hm'
    exact .inr ⟨hrow, ha, fun id => Table.get?_set ..⟩

/-- Behind every run in which no record is to be inserted with more attempts than it allows, each row
and each record that a session has staged is filed under its own identifier and allows the attempts
that it counts.  A row has the origin of a record that was inserted, and a staged record that of its
row; whatever comes, the row stays, and its origin stands.  An insert makes a new row, or it finds
one and changes nothing. -/
theorem records_keep_their_origin (h : Trace wait {} xs m)
    (hinserts : ∀ j a, ⟨.insert j, a⟩ ∈ xs → j.trys ≤ j.tryMax) :
    (∀ id j, m.rows.get? id = some j → j.id = id ∧ j.trys ≤ j.tryMax ∧
      ∃ j₀ k, ⟨.insert j₀, .ok k⟩ ∈ xs ∧ j₀.SameOrigin j) ∧
    (∀ s id j, (m.session s).staged.get? id = some j → j.id = id ∧ j.trys ≤ j.tryMax ∧
      ∃ r, m.rows.get? id = some r ∧ r.SameOrigin j) ∧
    (∀ ys m', Trace wait m ys m' → ∀ id j, m.rows.get? id = some j →
      ∃ j', m'.rows.get? id = some j' ∧ j.SameOrigin j') ∧
    ∀ j a m', Serves wait m ⟨.insert j, a⟩ m' →
      (∃ r, m.rows.get? j.id = some r) ∧ a = .error (.alreadyExists j.id) ∧ m' = m ∨
        m.rows.get? j.id = none ∧ a = .ok j.id ∧
          ∀ id, m'.rows.get? id = if j.id = id then some j else m.rows.get? id := by
  have hr := h.recorded
  have hrow {id : JobId} {j : Job} (hj : m.rows.get? id = some j) : j.id = id ∧
      j.trys ≤ j.tryMax ∧ ∃ j₀ k, ⟨.insert j₀, .ok k⟩ ∈ xs ∧ j₀.SameOrigin j := by
    obtain ⟨j₀, hj₀, hsame, hbound⟩ := hr.row_keeps hj
    obtain ⟨k, hk⟩ := mem_of_inserted hj₀
    exact ⟨hr.coherent.filed hj, hbound (hinserts j₀ _ hk), j₀, k, hk, hsame⟩
  refine ⟨fun id j => hrow, fun s id j hst => ?staged, fun ys m' h' id j => h.row_stays h',
    fun j a m' => insert_fills_or_fails⟩
  case staged =>
    cases hs : m.sessions.get? s with
    | none =>
      rw [show m.session s = {} by simp [session, hs]] at hst
      cases hst
    | some own =>
      rw [session_of_get? hs] at hst
      obtain ⟨r, hrid, hsame, hbound⟩ := hr.staged_keeps hs hst
      exact ⟨(hr.coherent.staged_held hs hst).2, hbound (hrow hrid).2.1, r, hrid, hsame⟩

/-- A record is inserted twice; a session changes it and is refused a change of it, another is
committed with an attempt. -/
def reinserted : List StoreCall :=
  [.insert sample, .begin, .update 1 sample.id { trys := some 1, status := some .running },
    .commit 1, .insert { sample with action := "other" }, .begin,
    .update 2 sample.id { trys := some 4 }, .update 2 sample.id { trys := some 3 }]

/-- Whether a record to be inserted allows the attempts that it counts. -/
def Event.allowed : Event → Bool
  | ⟨.insert j, _⟩ => decide (j.trys ≤ j.tryMax)
  | _ => true

theorem reinserted_row_stays : ∃ xs m, Trace 0 {} xs m ∧
    (∀ j a, ⟨.insert j, a⟩ ∈ xs → j.trys ≤ j.tryMax) ∧
    (∃ j, m.rows.get? sample.id = some j ∧ j.id = sample.id ∧ j.trys ≤ j.tryMax) ∧
    ∃ j, (m.session 2).staged.get? sample.id = some j ∧ j.id = sample.id ∧ j.trys ≤ j.tryMax := by
  obtain ⟨xs, m, h, hf⟩ := trace_of_serveAll reinserted
    (fun xs m => (xs.all Event.allowed, m.rows.get? sample.id, (m.session 2).staged.get? sample.id))
    (v := (true, some { sample with trys := 1, status := .running },
      some { sample with trys := 3, status := .running })) (by decide)
  simp only [Prod.mk.injEq] at hf
  obtain ⟨hall, hrow, hstaged⟩ := hf
  have hinserts (j : Job) (a : (StoreCall.insert j).Answer) (ha : ⟨.insert j, a⟩ ∈ xs) :
      j.trys ≤ j.tryMax := by
    have hallowed : Event.allowed ⟨.insert j, a⟩ = true := List.all_eq_true.mp hall _ ha
    exact of_decide_eq_true hallowed
  obtain ⟨hrows, hstages, -⟩ := records_keep_their_origin h hinserts
  obtain ⟨hid, hbound, -⟩ := hrows _ _ hrow
  obtain ⟨hid', hbound', -⟩ := hstages _ _ _ hstaged
  exact ⟨xs, m, h, hinserts, ⟨_, hrow, hid, hbound⟩, _, hstaged, hid', hbound'⟩

end Memory

end JobEngine
