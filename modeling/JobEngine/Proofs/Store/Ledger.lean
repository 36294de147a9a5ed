import JobEngine.Proofs.Store.Effect

/-!
# Rows and the changes that made them

From the answers of a run one reads off what every row should be: the record that was inserted,
with the changes of the sessions that were committed, in the order of the commits.  A store in
memory has just these rows, and shows them.

* `Memory.committed`    the changes of a row that were committed, in order;
* `Memory.record`       the record they make;
* `Memory.view`         the same with the changes that a session has yet to commit;
* `Memory.Recorded`     what ties a store to its answers, kept by `Recorded.step`;
* `rows_are_committed_changes`   no update is lost, made up or half done.
-/

namespace JobEngine.Memory

variable {wait : Nat} {m m' : Memory} {s : SessionId} {own : Session} {id : JobId} {e : Event}
  {xs : List Event}

/-! ## reading answers -/

/-- The changes of a row that an answer commits: those of a session, or one made at once. -/
def Event.files (past : List Event) (id : JobId) (e : Event) : List Changes :=
  match e.commits with
  | some s => past.filterMap (changes s id)
  | none => (e.writes id).toList

def committedBehind (id : JobId) : List Event → List Event → List Changes
  | _, [] => []
  | past, e :: xs => e.files past id ++ committedBehind id (past ++ [e]) xs

/-- The changes of a row that were committed. -/
def committed (id : JobId) (xs : List Event) : List Changes := committedBehind id [] xs

/-- The record that a row began with. -/
def inserted (id : JobId) (xs : List Event) : Option Job := xs.findSome? (Event.inserts id)

/-- What a row should be. -/
def record (id : JobId) (xs : List Event) : Option (Except DomainError Job) :=
  (inserted id xs).map (Changes.applyAll (committed id xs))

/-- What session `s` should see of a row. -/
def view (s : SessionId) (id : JobId) (xs : List Event) : Option (Except DomainError Job) :=
  (inserted id xs).map
    (Changes.applyAll (committed id xs ++ xs.filterMap (Event.changes s id)))

theorem committedBehind_concat (id : JobId) (past xs : List Event) (e : Event) :
    committedBehind id past (xs ++ [e]) =
      committedBehind id past xs ++ e.files (past ++ xs) id := by
  induction xs generalizing past with
  | nil => simp [committedBehind]
  | cons x xs ih =>
    show x.files past id ++ committedBehind id (past ++ [x]) (xs ++ [e]) = _
    rw [ih, ← List.append_assoc, List.append_assoc past]
    rfl

theorem committed_concat (id : JobId) (xs : List Event) (e : Event) :
    committed id (xs ++ [e]) = committed id xs ++ e.files xs id :=
  committedBehind_concat id [] xs e

theorem inserted_concat (h : e.inserts id = none) : inserted id (xs ++ [e]) = inserted id xs := by
  unfold inserted
  rw [List.findSome?_append, List.findSome?_singleton, h, Option.or_none]

theorem inserted_concat_some {j : Job} (hno : inserted id xs = none) (h : e.inserts id = some j) :
    inserted id (xs ++ [e]) = some j := by
  unfold inserted at hno ⊢
  rw [List.findSome?_append, List.findSome?_singleton, h, hno, Option.none_or]

theorem changes_concat (h : e.changes s id = none) :
    (xs ++ [e]).filterMap (Event.changes s id) = xs.filterMap (Event.changes s id) := by
  rw [List.filterMap_append]
  simp [h]

theorem changes_concat_some {c : Changes} (h : e.changes s id = some c) :
    (xs ++ [e]).filterMap (Event.changes s id) = xs.filterMap (Event.changes s id) ++ [c] := by
  rw [List.filterMap_append]
  simp [h]

/-! ## the store and its answers -/

/-- The store is as its answers say. -/
structure Recorded (xs : List Event) (m : Memory) : Prop where
  coherent : m.Coherent
  row (id : JobId) : (m.rows.get? id).map .ok = record id xs
  /-- A row that is not there was never changed. -/
  bare {id : JobId} : m.rows.get? id = none → committed id xs = []
  /-- What a session has staged are its changes, over the row as it is. -/
  seen {s : SessionId} {own : Session} {id : JobId} {j : Job} : m.sessions.get? s = some own →
    m.rows.get? id = some j →
    Changes.applyAll (xs.filterMap (Event.changes s id)) j = .ok ((own.staged.get? id).getD j)
  free {s : SessionId} {own : Session} {id : JobId} : m.sessions.get? s = some own →
    id ∉ own.held → xs.filterMap (Event.changes s id) = []
  /-- A session that is not yet open has changed nothing. -/
  unborn {s : SessionId} {id : JobId} : m.nextSession ≤ s →
    xs.filterMap (Event.changes s id) = []

theorem recorded_start : Recorded [] {} where
  coherent := quiet_empty.coherent
  row _ := rfl
  bare _ := rfl
  seen hs := by simp at hs
  free hs := by simp at hs
  unborn _ := rfl

theorem Recorded.inserted_of_row {j : Job} (h : Recorded xs m) (hj : m.rows.get? id = some j) :
    ∃ j₀, inserted id xs = some j₀ ∧ Changes.applyAll (committed id xs) j₀ = .ok j := by
  have hrow := h.row id
  rw [hj] at hrow
  exact Option.map_eq_some_iff.mp hrow.symm

theorem Recorded.no_row (h : Recorded xs m) (hno : m.rows.get? id = none) :
    inserted id xs = none := by
  have hrow := h.row id
  rw [hno] at hrow
  exact Option.map_eq_none_iff.mp hrow.symm

/-- Of a row that it does not hold a session has staged nothing. -/
theorem Recorded.staged_of_free (h : Recorded xs m) (hs : m.sessions.get? s = some own)
    (hid : id ∉ own.held) : own.staged.get? id = none := by
  cases hst : own.staged.get? id with
  | none => rfl
  | some j => exact absurd (h.coherent.staged_held hs hst).1 hid

theorem Recorded.free_of_no_row (h : Recorded xs m) (hs : m.sessions.get? s = some own)
    (hno : m.rows.get? id = none) : id ∉ own.held := by
  intro hid
  obtain ⟨j, hj⟩ := h.coherent.held_row hs hid
  rw [hno] at hj
  simp at hj

theorem Recorded.no_changes (h : Recorded xs m) (hserves : Serves wait m e m')
    (hs : m.nextSession ≤ s) : e.changes s id = none := by
  cases hc : e.changes s id with
  | none => rfl
  | some c =>
    obtain ⟨own, hown⟩ := isOpen_iff.mp (hserves.admits s (Event.session_of_changes hc))
    exact absurd (h.coherent.lt_next hown) (Nat.not_lt.mpr hs)

/-! ## one more answer -/

/-- The changes that an answer commits are made on top of the record of before. -/
theorem Recorded.record_next (h : Recorded xs m) {cs : List Changes} {j j' : Job}
    (hins : e.inserts id = none) (hcs : e.files xs id = cs) (hj : m.rows.get? id = some j)
    (hap : Changes.applyAll cs j = .ok j') : record id (xs ++ [e]) = some (.ok j') := by
  obtain ⟨j₀, hj₀, hall⟩ := h.inserted_of_row hj
  unfold record
  rw [inserted_concat hins, committed_concat, hj₀, hcs]
  show some (Changes.applyAll _ j₀) = _
  rw [Changes.applyAll_append, hall]
  exact congrArg some hap

/-- What a row is behind an answer is what is then committed. -/
theorem Recorded.row_step (h : Recorded xs m) (he : RowEffect m e m' id) :
    (m'.rows.get? id).map .ok = record id (xs ++ [e]) ∧
      (m'.rows.get? id = none → committed id (xs ++ [e]) = []) := by
  cases he with
  | stays hcommits hwrites hins hsame =>
    have hno : e.files xs id = [] := by
      unfold Event.files
      rw [hcommits, hwrites]
      rfl
    have hcs : committed id (xs ++ [e]) = committed id xs := by
      rw [committed_concat, hno, List.append_nil]
    rw [hsame, hcs]
    unfold record
    rw [inserted_concat hins, hcs]
    exact ⟨h.row id, h.bare⟩
  | @files s own he hs hrow =>
    subst he
    cases hj : m.rows.get? id with
    | none =>
      have hfree := h.free_of_no_row hs hj
      have hfiles : Event.files xs id ⟨.commit s, .ok ()⟩ = [] := h.free hs hfree
      rw [h.staged_of_free hs hfree, hj] at hrow
      have hcs : committed id (xs ++ [⟨.commit s, .ok ()⟩]) = [] := by
        rw [committed_concat, hfiles, h.bare hj]
        rfl
      rw [hrow]
      unfold record
      rw [inserted_concat rfl, h.no_row hj]
      exact ⟨rfl, fun _ => hcs⟩
    | some j =>
      have hj' : m'.rows.get? id = some ((own.staged.get? id).getD j) := by
        rw [hrow, hj]
        cases own.staged.get? id <;> rfl
      have hrecord := h.record_next (e := ⟨.commit s, .ok ()⟩) rfl rfl hj (h.seen hs hj)
      rw [hj', hrecord]
      exact ⟨rfl, fun hno => by simp at hno⟩
  | @writes c j j' he hj hap hj' =>
    subst he
    have hfiles : Event.files xs id ⟨.write id c, .ok 1⟩ = [c] := by
      show (if id = id then some c else none).toList = [c]
      rw [if_pos rfl]
      rfl
    rw [hj', h.record_next rfl hfiles hj ((Changes.applyAll_one c j).trans hap)]
    exact ⟨rfl, fun hno => by simp at hno⟩
  | @inserts j k he hjid hno hj' =>
    subst he
    have hcs : committed id (xs ++ [⟨.insert j, .ok k⟩]) = [] := by
      rw [committed_concat, h.bare hno]
      rfl
    have hins : Event.inserts id ⟨.insert j, .ok k⟩ = some j := if_pos hjid
    rw [hj', hcs]
    unfold record
    rw [inserted_concat_some (h.no_row hno) hins, hcs]
    exact ⟨rfl, fun hno => by simp at hno⟩

/-- A session of after was there before, with what its answer added, or has done nothing. -/
theorem Recorded.session_step (h : Recorded xs m) (hserves : Serves wait m e m') {own' : Session}
    (hs' : m'.sessions.get? s = some own') :
    (∀ j, m'.rows.get? id = some j → Changes.applyAll ((xs ++ [e]).filterMap (Event.changes s id)) j
      = .ok ((own'.staged.get? id).getD j)) ∧
    (id ∉ own'.held → (xs ++ [e]).filterMap (Event.changes s id) = []) := by
  have he := hserves.effect h.coherent
  -- nothing is changed and nothing staged
  have hidle (hcs : (xs ++ [e]).filterMap (Event.changes s id) = [])
      (hst : own'.staged.get? id = none) :
      (∀ j, m'.rows.get? id = some j →
        Changes.applyAll ((xs ++ [e]).filterMap (Event.changes s id)) j
          = .ok ((own'.staged.get? id).getD j)) ∧
      (id ∉ own'.held → (xs ++ [e]).filterMap (Event.changes s id) = []) := by
    rw [hcs, hst]
    exact ⟨fun j _ => rfl, fun _ => rfl⟩
  rcases he.back hs' with ⟨own, hs, hend⟩ | ⟨rfl, hnew⟩
  · by_cases hcall : e.1.session? = some s
    · obtain ⟨hrows, own₁, hs₁, hheld, hstage⟩ := he.own hs hcall hend
      obtain rfl := Option.some.inj (hs₁.symm.trans hs')
      cases hstage id with
      | stays hno hsame =>
        rw [changes_concat hno, hsame, hrows]
        exact ⟨fun j hj => h.seen hs hj, fun hid => h.free hs fun hold => hid (hheld id hold)⟩
      | @stages c j j' hc hj hap hst hid =>
        rw [changes_concat_some hc, hst, hrows]
        refine ⟨fun r hr => ?_, fun hno => absurd hid hno⟩
        have hseen := h.seen hs hr
        have hgetD : (own.staged.get? id).getD r = j := by
          rw [hr] at hj
          cases hst₀ : own.staged.get? id with
          | none => rw [hst₀] at hj; exact Option.some.inj hj
          | some j₀ => rw [hst₀] at hj; exact Option.some.inj hj
        rw [hgetD] at hseen
        exact (Changes.applyAll_concat hseen).trans hap
    · obtain ⟨hs₁, hrows⟩ := he.leaves hcall own hs
      obtain rfl := Option.some.inj (hs₁.symm.trans hs')
      have hno : e.changes s id = none := Event.changes_eq_none hcall
      by_cases hid : id ∈ own.held
      · rw [changes_concat hno, hrows id hid]
        exact ⟨fun j hj => h.seen hs hj, h.free hs⟩
      · exact hidle ((changes_concat hno).trans (h.free hs hid)) (h.staged_of_free hs hid)
  · exact hidle ((changes_concat (h.no_changes hserves hnew)).trans (h.unborn hnew)) rfl

theorem Recorded.step (h : Recorded xs m) (hserves : Serves wait m e m') :
    Recorded (xs ++ [e]) m' := by
  have he := hserves.effect h.coherent
  refine ⟨he.coherent, fun id => (h.row_step (he.row id)).1, fun {id} => (h.row_step (he.row id)).2,
    fun {s own id j} hs hj => (h.session_step hserves hs).1 j hj,
    fun {s own id} hs => (h.session_step hserves hs).2, fun {s id} hs => ?_⟩
  have hs := Nat.le_trans he.next_le hs
  rw [changes_concat (h.no_changes hserves hs)]
  exact h.unborn hs

theorem Trace.recorded (h : Trace wait {} xs m) : Recorded xs m := by
  induction h with
  | start => exact recorded_start
  | next _ hs ih => exact ih.step hs

/-! ## what is read -/

theorem Recorded.view_eq (h : Recorded xs m) (hs : m.sessions.get? s = some own) (id : JobId) :
    (m.current s id).map .ok = view s id xs := by
  rw [current_eq hs]
  unfold view
  cases hj : m.rows.get? id with
  | none =>
    rw [h.staged_of_free hs (h.free_of_no_row hs hj), h.no_row hj]
    rfl
  | some j =>
    obtain ⟨j₀, hj₀, hall⟩ := h.inserted_of_row hj
    rw [hj₀]
    show _ = some (Changes.applyAll _ j₀)
    rw [Changes.applyAll_append, hall]
    show _ = some (Changes.applyAll _ j)
    rw [h.seen hs hj]
    cases own.staged.get? id <;> rfl

theorem Recorded.row_iff (h : Recorded xs m) {j : Job} :
    m.rows.get? id = some j ↔ record id xs = some (.ok j) := by
  rw [← h.row id]
  cases m.rows.get? id <;> simp

/-- The rows are the records, each once. -/
theorem Recorded.values (h : Recorded xs m) :
    (m.rows.values.map Job.id).Nodup ∧
      ∀ j, j ∈ m.rows.values ↔ record j.id xs = some (.ok j) := by
  refine ⟨h.coherent.nodup_ids, fun j => ?_⟩
  rw [← h.row_iff]
  exact h.coherent.mem_values

/-- Behind every run each row is the record that was inserted, with the changes of the committed
sessions one after another; nothing else has come of any change.  Reads and listings of before show
these records as they then were, and a session sees its own changes on top. -/
theorem rows_are_committed_changes (h : Trace wait {} xs m) :
    (∀ id, (m.rows.get? id).map .ok = record id xs) ∧
    (∀ as bs id a, xs = as ++ ⟨.read id, a⟩ :: bs → ∃ r, a = .ok r ∧ r.map .ok = record id as) ∧
    (∀ as bs q a, xs = as ++ ⟨.list q, a⟩ :: bs → ∃ jobs, a = .ok (q.select jobs) ∧
      (jobs.map Job.id).Nodup ∧ ∀ j, j ∈ jobs ↔ record j.id as = some (.ok j)) ∧
    ∀ as bs s id lock a, xs = as ++ ⟨.get s id lock, a⟩ :: bs →
      (∃ r, a = .ok r ∧ r.map .ok = view s id as) ∨
        lock = true ∧ ∃ err : StoreError, a = .error err ∧ err.isContention = true := by
  refine ⟨h.recorded.row, fun as bs id a hxs => ?_, fun as bs q a hxs => ?_,
    fun as bs s id lock a hxs => ?_⟩
  · obtain ⟨m₁, m₂, has, he, -⟩ := h.split hxs
    exact ⟨_, (he.at_once rfl).1, has.recorded.row id⟩
  · obtain ⟨m₁, m₂, has, he, -⟩ := h.split hxs
    exact ⟨_, (he.at_once rfl).1, has.recorded.values⟩
  · obtain ⟨m₁, m₂, has, he, -⟩ := h.split hxs
    obtain ⟨own, hs⟩ := isOpen_iff.mp (he.admits s rfl)
    rcases he.get_answer has.recorded.coherent with ha | ⟨hlock, -, hbusy⟩
    · exact Or.inl ⟨_, ha, has.recorded.view_eq hs id⟩
    · exact Or.inr ⟨hlock, hbusy⟩

/-- A session is committed with one change of two, the other being refused; then a row is written
at once, and a second session leaves its change behind. -/
def mixed : List StoreCall :=
  [.insert sample, .begin, .update 1 sample.id { trys := some 4 },
    .update 1 sample.id { status := some .running }, .commit 1,
    .write sample.id { trys := some 1 }, .begin, .update 3 sample.id { trys := some 2 },
    .discard 3]

theorem mixed_row : ∃ xs m, Trace 0 {} xs m ∧
    committed sample.id xs = [{ status := some .running }, { trys := some 1 }] ∧
    (m.rows.get? sample.id).map .ok = record sample.id xs := by
  obtain ⟨xs, m, h, hcs⟩ := trace_of_serveAll mixed (fun xs _ => committed sample.id xs)
    (v := [{ status := some .running }, { trys := some 1 }]) (by decide)
  exact ⟨xs, m, h, hcs, (rows_are_committed_changes h).1 _⟩

end JobEngine.Memory
