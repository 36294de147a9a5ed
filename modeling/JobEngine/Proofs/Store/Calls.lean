import JobEngine.Proofs.Store.Locking
import JobEngine.Store.LockWait

/-!
# A store at work

Sessions, and callers that need none, call a store in memory in any order.  Who finds a row held
looks again until the row is free or the wait is over, and a session may be left at any time.

* `Memory.Event`     a call with its answer, and what it means for a row;
* `Memory.Serves`    one call is answered;
* `Memory.Trace`     a run of calls, and `Trace.split` at one of them;
* `Memory.serveAll`  a script of calls, and what it is answered;
* `perform_none`     a call that finds the row held changes nothing;
* `get_answer`, `get_free`   what a session reads, and that it does not wait for a free row;
* `update_held`, `update_seen`   what comes of a change under the lock;
* `write_cases`      all that a write at once can do;
* `perform_new_row`  a row is new because it was inserted.
-/

namespace JobEngine

/-- The session that a call goes through. -/
def StoreCall.session? : StoreCall → Option SessionId
  | .get s _ _ | .update s _ _ | .commit s | .rollback s | .discard s => some s
  | _ => none

/-- The session that a call ends. -/
def StoreCall.ends? : StoreCall → Option SessionId
  | .commit s | .rollback s | .discard s => some s
  | _ => none

/-- The call takes the lock of a row, or waits for it. -/
def StoreCall.locks : StoreCall → Bool
  | .get _ _ lock => lock
  | .update _ _ _ | .write _ _ => true
  | _ => false

/-- Changes one after another; one that is refused makes the whole fail. -/
def Changes.applyAll (cs : List Changes) (j : Job) : Except DomainError Job :=
  cs.foldlM (fun j c => c.apply j) j

theorem Changes.applyAll_append (cs ds : List Changes) (j : Job) :
    applyAll (cs ++ ds) j = applyAll cs j >>= applyAll ds :=
  List.foldlM_append ..

theorem Changes.applyAll_one (c : Changes) (j : Job) : applyAll [c] j = c.apply j :=
  bind_pure (c.apply j)

theorem Changes.applyAll_concat {cs : List Changes} {c : Changes} {j j' : Job}
    (h : applyAll cs j = .ok j') : applyAll (cs ++ [c]) j = c.apply j' := by
  rw [applyAll_append, h]
  exact applyAll_one c j'

namespace Memory

abbrev Event := (c : StoreCall) × c.Answer

namespace Event

/-- The changes of a row that session `s` has made with success. -/
def changes (s : SessionId) (id : JobId) : Event → Option Changes
  | ⟨.update s' k c, .ok 1⟩ => if s' = s ∧ k = id then some c else none
  | _ => none

/-- The changes of a row that were made at once, with success. -/
def writes (id : JobId) : Event → Option Changes
  | ⟨.write k c, .ok 1⟩ => if k = id then some c else none
  | _ => none

theorem session_of_changes {s : SessionId} {id : JobId} {e : Event} {c : Changes}
    (h : e.changes s id = some c) : e.1.session? = some s := by
  unfold changes at h
  split at h
  · split at h
    · next hs => exact congrArg some hs.1
    · simp at h
  · simp at h

theorem changes_eq_none {s : SessionId} {id : JobId} {e : Event} (h : e.1.session? ≠ some s) :
    e.changes s id = none := by
  cases hc : e.changes s id with
  | none => rfl
  | some c => exact absurd (session_of_changes hc) h

theorem writes_failed {k : JobId} {c : Changes} {a : Except StoreError Nat} (id : JobId)
    (h : a ≠ .ok 1) : writes id ⟨.write k c, a⟩ = none :=
  match a, h with
  | .ok 0, _ => rfl
  | .ok 1, h => absurd rfl h
  | .ok (_ + 2), _ => rfl
  | .error _, _ => rfl

def commits : Event → Option SessionId
  | ⟨.commit s, .ok ()⟩ => some s
  | _ => none

/-- The record that becomes a new row. -/
def inserts (id : JobId) : Event → Option Job
  | ⟨.insert j, .ok _⟩ => if j.id = id then some j else none
  | _ => none

/-- No row is filed. -/
def Rests (e : Event) : Prop := e.commits = none ∧ ∀ id, e.writes id = none ∧ e.inserts id = none

end Event

/-- A session that is called is open. -/
def Admits (m : Memory) (c : StoreCall) : Prop := ∀ s, c.session? = some s → m.isOpen s

/-- A call is answered; `wait` is how long locks are waited for. -/
inductive Serves (wait : Nat) (m : Memory) : Event → Memory → Prop
  | answered {c : StoreCall} {a : c.Answer} {m' : Memory} :
    m.Admits c → m.perform c = (some a, m') → Serves wait m ⟨c, a⟩ m'
  /-- The row is held at the last look. -/
  | refused {c : StoreCall} {m' : Memory} {start now : Nat} {e : StoreError} :
    m.Admits c → m.perform c = (none, m') → LockWait.next wait (start + wait) now = .error e →
    Serves wait m ⟨c, c.refuse e⟩ m'

/-- The store behind some calls, one after another. -/
inductive Trace (wait : Nat) (m₀ : Memory) : List Event → Memory → Prop
  | start : Trace wait m₀ [] m₀
  | next {xs : List Event} {m m' : Memory} {e : Event} :
    Trace wait m₀ xs m → Serves wait m e m' → Trace wait m₀ (xs ++ [e]) m'

variable {wait : Nat} {m m' m₀ : Memory} {s : SessionId} {own : Session} {id : JobId} {e : Event}

/-- The stores around one call of a run. -/
theorem Trace.split {xs as bs : List Event} (h : Trace wait m₀ xs m) (hxs : xs = as ++ e :: bs) :
    ∃ m₁ m₂, Trace wait m₀ as m₁ ∧ Serves wait m₁ e m₂ ∧ Trace wait m₂ bs m := by
  induction h generalizing bs with
  | start => simp at hxs
  | @next xs m m' b h hb ih =>
    rcases List.eq_nil_or_concat bs with rfl | ⟨bs, b', rfl⟩
    · obtain ⟨rfl, he⟩ := List.append_inj' hxs rfl
      obtain rfl := List.singleton_inj.mp he
      exact ⟨m, m', h, hb, .start⟩
    · have hxs : xs ++ [b] = (as ++ e :: bs) ++ [b'] := by simpa using hxs
      obtain ⟨hbefore, hlast⟩ := List.append_inj' hxs rfl
      obtain rfl := List.singleton_inj.mp hlast
      obtain ⟨m₁, m₂, has, he, hbs⟩ := ih hbefore
      rw [List.concat_eq_append]
      exact ⟨m₁, m₂, has, he, .next hbs hb⟩

/-! ## a script -/

/-- A store that does not wait is asked by a script; nothing if a session is called that is not
open. -/
def serveAll (m : Memory) : List StoreCall → Option (List Event × Memory)
  | [] => some ([], m)
  | c :: cs =>
    if c.session?.all m.isOpen then
      match m.perform c with
      | (some a, m') => (serveAll m' cs).map fun x => (⟨c, a⟩ :: x.1, x.2)
      | (none, m') => (serveAll m' cs).map fun x => (⟨c, c.refuse .rowLocked⟩ :: x.1, x.2)
    else none

theorem trace_serveAll {xs ys : List Event} {cs : List StoreCall} (h : Trace 0 m₀ xs m)
    (hcs : serveAll m cs = some (ys, m')) : Trace 0 m₀ (xs ++ ys) m' := by
  induction cs generalizing m xs ys with
  | nil =>
    obtain ⟨rfl, rfl⟩ := Prod.mk.inj (Option.some.inj hcs)
    rwa [List.append_nil]
  | cons c cs ih =>
    unfold serveAll at hcs
    split at hcs
    · next hopen =>
      have hadm : m.Admits c := fun s hs => (Option.all_eq_true ..).mp hopen s hs
      split at hcs
      · next a m₁ hp =>
        obtain ⟨x, hx, e⟩ := Option.map_eq_some_iff.mp hcs
        obtain ⟨rfl, rfl⟩ := Prod.mk.inj e
        have h := ih (.next h (.answered hadm hp)) hx
        rwa [List.append_assoc] at h
      · next m₁ hp =>
        obtain ⟨x, hx, e⟩ := Option.map_eq_some_iff.mp hcs
        obtain ⟨rfl, rfl⟩ := Prod.mk.inj e
        have hnow : LockWait.next 0 0 0 = .error .rowLocked := rfl
        have h := ih (.next h (.refused hadm hp hnow)) hx
        rwa [List.append_assoc] at h
    · simp at hcs

/-- What is computed from the answers to a script holds of a run. -/
theorem trace_of_serveAll {α : Type} (cs : List StoreCall) (f : List Event → Memory → α) {v : α}
    (h : (serveAll {} cs).map (fun x => f x.1 x.2) = some v) :
    ∃ xs m, Trace 0 {} xs m ∧ f xs m = v := by
  obtain ⟨x, hx, hf⟩ := Option.map_eq_some_iff.mp h
  exact ⟨x.1, x.2, trace_serveAll .start hx, hf⟩

/-- A job to call for. -/
def sample : Job where
  id := ⟨1#128⟩
  project := .system
  action := "echo"
  status := .pending
  params := .null
  result := none
  error := none
  runAt := .epoch
  tryPeriod := 600
  tryMax := 3
  trys := 0
  created := .epoch
  updated := .epoch

/-! ## sessions -/

theorem isOpen_iff : m.isOpen s ↔ ∃ own, m.sessions.get? s = some own := by
  unfold isOpen Table.contains
  exact Option.isSome_iff_exists

theorem current_eq (hs : m.sessions.get? s = some own) (id : JobId) :
    m.current s id = (own.staged.get? id).or (m.rows.get? id) := by
  unfold current
  rw [session_of_get? hs]
  cases own.staged.get? id <;> rfl

theorem Leaves.trans {m'' : Memory} (h : Leaves s m m') (h' : Leaves s m' m'') :
    Leaves s m m'' := by
  intro own hs
  obtain ⟨hs', hrows⟩ := h own hs
  obtain ⟨hs'', hrows'⟩ := h' own hs'
  exact ⟨hs'', fun id hid => (hrows' id hid).trans (hrows id hid)⟩

/-! ## a row that is held -/

theorem get_none {lock : Bool} (h : m.get s id lock = (none, m')) : lock = true ∧ m' = m := by
  unfold get at h
  split at h
  · next hlock =>
    rcases acquire_cases m s id with ⟨_, e⟩ | ⟨_, e⟩ | e | ⟨_, _, e⟩ <;> rw [e] at h
    · simp at h
    · simp at h
    · exact ⟨hlock, (Prod.mk.inj h).2.symm⟩
    · simp at h
  · simp at h

theorem update_none {changes : Changes} (h : m.update s id changes = (none, m')) : m' = m := by
  unfold update at h
  split at h
  · next m₁ e =>
    obtain rfl := acquire_not_held e (by decide)
    exact (Prod.mk.inj h).2.symm
  · simp at h
  · split at h
    · simp at h
    · split at h <;> simp at h

theorem write_none {changes : Changes} (h : m.write id changes = (none, m')) : m' = m := by
  unfold write at h
  dsimp only at h
  split at h
  · exact (Prod.mk.inj h).2.symm
  · simp at h
  · simp at h

/-- A call that finds the row held changes nothing. -/
theorem perform_none {c : StoreCall} (h : m.perform c = (none, m')) :
    c.locks = true ∧ m' = m := by
  cases c with
  | get s id lock => exact get_none h
  | update s id changes => exact ⟨rfl, update_none h⟩
  | write id changes => exact ⟨rfl, write_none h⟩
  | _ => exact absurd (Prod.mk.inj h).1 (Option.some_ne_none _)

/-- A call that never waits is answered by the store as it is. -/
theorem Serves.at_once {c : StoreCall} {a r : c.Answer} {m₁ : Memory}
    (h : Serves wait m ⟨c, a⟩ m') (hr : m.perform c = (some r, m₁)) : a = r ∧ m' = m₁ := by
  cases h with
  | answered _ h =>
    obtain ⟨ha, hm⟩ := Prod.mk.inj (h.symm.trans hr)
    exact ⟨Option.some.inj ha, hm⟩
  | refused _ h _ =>
    obtain ⟨ha, _⟩ := Prod.mk.inj (h.symm.trans hr)
    exact absurd ha.symm (Option.some_ne_none _)

/-! ## numbers of sessions -/

theorem acquire_next (m : Memory) (s : SessionId) (id : JobId) :
    (m.acquire s id).2.nextSession = m.nextSession := by
  rcases acquire_cases m s id with ⟨_, e⟩ | ⟨_, e⟩ | e | ⟨_, _, e⟩ <;> rw [e]
  rfl

theorem get_next (m : Memory) (s : SessionId) (id : JobId) (lock : Bool) :
    (m.get s id lock).2.nextSession = m.nextSession := by
  have h := acquire_next m s id
  unfold get
  split
  · split <;> next e => rw [e] at h; exact h
  · rfl

theorem update_next (m : Memory) (s : SessionId) (id : JobId) (changes : Changes) :
    (m.update s id changes).2.nextSession = m.nextSession := by
  have h := acquire_next m s id
  unfold update
  split
  · next e => rw [e] at h; exact h
  · next e => rw [e] at h; exact h
  · next e =>
    rw [e] at h
    split
    · exact h
    · split <;> exact h

/-! ## locks that are kept -/

theorem held_acquire (hs : m.sessions.get? s = some own) (id : JobId) :
    ∀ k ∈ own.held, k ∈ ((m.acquire s id).2.session s).held := by
  intro k hk
  rcases acquire_cases m s id with ⟨_, e⟩ | ⟨_, e⟩ | e | ⟨_, _, e⟩ <;> rw [e]
  · rwa [session_of_get? hs]
  · rwa [session_of_get? hs]
  · rwa [session_of_get? hs]
  · rw [session_of_get? ((get?_grant hs s).trans (if_pos rfl))]
    exact List.mem_append_left _ hk

theorem held_get (hs : m.sessions.get? s = some own) (id : JobId) (lock : Bool) :
    ∀ k ∈ own.held, k ∈ ((m.get s id lock).2.session s).held := by
  have h := held_acquire hs id
  unfold get
  split
  · split <;> next e => rw [e] at h; exact h
  · intro k hk
    rwa [session_of_get? hs]

theorem held_update (hs : m.sessions.get? s = some own) (id : JobId) (changes : Changes) :
    ∀ k ∈ own.held, k ∈ ((m.update s id changes).2.session s).held := by
  have h := held_acquire hs id
  unfold update
  split
  · next e => rw [e] at h; exact h
  · next e => rw [e] at h; exact h
  · next m₁ e =>
    rw [e] at h
    split
    · exact h
    · split
      · exact h
      · intro k hk
        rw [session_of_get? ((Table.get?_set ..).trans (if_pos rfl))]
        exact h k hk

/-! ## a read -/

/-- What a session reads is what it sees of the row. -/
theorem get_answer {lock : Bool} {a : Except StoreError (Option Job)} (hm : m.Coherent)
    (hs : m.sessions.get? s = some own) (h : m.get s id lock = (some a, m')) :
    a = .ok (m.current s id) := by
  unfold get at h
  split at h
  · rcases acquire_cases m s id with ⟨_, e⟩ | ⟨hno, e⟩ | e | ⟨_, _, e⟩ <;> rw [e] at h
    · exact (Option.some.inj (Prod.mk.inj h).1).symm
    · -- nothing is staged of a row that is not there
      have hstaged : own.staged.get? id = none := by
        cases hst : own.staged.get? id with
        | none => rfl
        | some j =>
          obtain ⟨r, hr⟩ := hm.held_row hs (hm.staged_held hs hst).1
          rw [hno] at hr
          simp at hr
      rw [current_eq hs, hstaged, hno]
      exact (Option.some.inj (Prod.mk.inj h).1).symm
    · simp at h
    · have hs' : (m.grant s id).sessions.get? s = some { own with held := own.held ++ [id] } := by
        rw [get?_grant hs, if_pos rfl]
      have hsame : (m.grant s id).current s id = m.current s id := by
        rw [current_eq hs, current_eq hs']
        rfl
      rw [← hsame]
      exact (Option.some.inj (Prod.mk.inj h).1).symm
  · exact (Option.some.inj (Prod.mk.inj h).1).symm

/-- A session reads what it sees of a row; a locking read of a row that another holds fails. -/
theorem Serves.get_answer {lock : Bool} {a : (StoreCall.get s id lock).Answer} (hm : m.Coherent)
    (h : Serves wait m ⟨.get s id lock, a⟩ m') :
    a = .ok (m.current s id) ∨ lock = true ∧ id ∉ (m.session s).held ∧
      ∃ err : StoreError, a = .error err ∧ err.isContention = true := by
  cases h with
  | answered hadm h =>
    obtain ⟨own, hs⟩ := isOpen_iff.mp (hadm s rfl)
    exact Or.inl (Memory.get_answer hm hs h)
  | refused hadm h hwait =>
    refine Or.inr ⟨(perform_none h).1, fun hid => ?_, _, rfl, LockWait.next_eq_error hwait⟩
    have hheld : m.acquire s id = (.held, m) := if_pos hid
    change m.get s id lock = (none, m') at h
    unfold get at h
    rw [hheld] at h
    split at h <;> simp at h

/-- A session gets what it sees of a row that no other one holds. -/
theorem get_free (hm : m.Coherent) (hs : m.sessions.get? s = some own)
    (hfree : ∀ s', m.locks.get? id = some s' → s' = s) :
    ∃ m', m.get s id true = (some (.ok (m.current s id)), m') := by
  have hclaim : (m.acquire s id).1 ≠ .busy := by
    cases hl : m.locks.get? id with
    | some s' =>
      obtain rfl := hfree s' hl
      obtain ⟨own', hs', hid⟩ := hm.locked_iff.mp hl
      rw [show m.acquire s' id = (.held, m) from if_pos (session_of_get? hs' ▸ hid)]
      simp
    | none =>
      unfold acquire
      simp only [Table.contains, hl]
      split
      · simp
      · split <;> simp
  have hget : ∃ a m', m.get s id true = (some a, m') := by
    unfold get
    rw [if_pos rfl]
    split
    · exact ⟨_, _, rfl⟩
    · exact ⟨_, _, rfl⟩
    · next e => exact absurd (congrArg Prod.fst e) hclaim
  obtain ⟨a, m', hget⟩ := hget
  exact ⟨m', get_answer hm hs hget ▸ hget⟩

/-! ## a change -/

section
variable {j : Job} {c : Changes}

/-- Who gets a lock sees the rows as before. -/
theorem current_acquire (h : (m.acquire s id).1 = .held) (k : JobId) :
    (m.acquire s id).2.current s k = m.current s k := by
  rcases m.acquire_cases s id with ⟨-, he⟩ | ⟨-, he⟩ | he | ⟨-, -, he⟩
  · rw [he]
  · rw [he] at h; cases h
  · rw [he] at h; cases h
  · rw [he]
    have hsession : (m.grant s id).session s =
        { m.session s with held := (m.session s).held ++ [id] } :=
      session_of_get? (by rw [grant, Table.get?_set, if_pos rfl])
    unfold current
    rw [hsession]
    rfl

/-- The session that stages a record sees it, and the others as before. -/
theorem current_stage (m : Memory) (s : SessionId) (id : JobId) (j : Job) (k : JobId) :
    (m.stage s id j).current s k = if id = k then some j else m.current s k := by
  have hsession : (m.stage s id j).session s =
      { m.session s with staged := (m.session s).staged.set id j } :=
    session_of_get? (by rw [stage, Table.get?_set, if_pos rfl])
  unfold current
  rw [hsession]
  dsimp only
  rw [Table.get?_set]
  by_cases hk : id = k
  · rw [if_pos hk, if_pos hk]
  · rw [if_neg hk, if_neg hk]
    rfl

/-- A change by a session that has the row's lock or gets it is that of the record it sees. -/
theorem update_held (hseen : m.current s id = some j) (hlock : (m.acquire s id).1 = .held) :
    m.update s id c =
      match c.apply j with
      | .error e => (some (.error (.constraint e.message)), (m.acquire s id).2)
      | .ok j' => (some (.ok 1), (m.acquire s id).2.stage s id j') := by
  have hacquire : m.acquire s id = (.held, (m.acquire s id).2) := Prod.ext hlock rfl
  unfold update
  rw [hacquire]
  dsimp only
  rw [current_acquire hlock, hseen]
  rfl

/-- What comes of such a change. -/
theorem update_seen (hseen : m.current s id = some j) (hlock : (m.acquire s id).1 = .held) :
    if c.Oversteps j then
      ∃ t m', m.update s id c = (some (.error (.constraint t)), m') ∧
        ∀ k, m'.current s k = m.current s k
    else
      ∃ m', m.update s id c = (some (.ok 1), m') ∧
        ∀ k, m'.current s k = if id = k then some (c.overwrite j) else m.current s k := by
  have hcurrent := current_acquire hlock
  rw [update_held hseen hlock, Changes.apply_eq]
  split
  · exact ⟨_, _, rfl, hcurrent⟩
  · refine ⟨_, rfl, fun k => ?_⟩
    rw [current_stage, hcurrent]

end

/-! ## a write at once -/

theorem get?_nextSession (hm : m.Coherent) : m.sessions.get? m.nextSession = none := by
  cases hn : m.sessions.get? m.nextSession with
  | none => rfl
  | some own => exact absurd (hm.lt_next hn) (Nat.lt_irrefl _)

/-- No session of before has the number of the next one. -/
theorem leaves_all (hm : m.Coherent) (h : ∀ s, m.nextSession ≠ s → Leaves s m m')
    (s : SessionId) : Leaves s m m' := by
  by_cases e : m.nextSession = s
  · intro own hs
    rw [← e, get?_nextSession hm] at hs
    simp at hs
  · exact h s e

/-- A change in a session that was opened for it. -/
theorem update_opened {changes : Changes} {a : Except StoreError Nat} (hm : m.Coherent)
    (h : m.openSession.2.update m.nextSession id changes = (some a, m')) :
    m'.Coherent ∧ m.nextSession ≤ m'.nextSession ∧
    (∃ own, m'.sessions.get? m.nextSession = some own) ∧
    (∀ s, (if m.nextSession = s then none else m'.sessions.get? s) = m.sessions.get? s) ∧
    ∀ s, m.nextSession ≠ s → Leaves s m m' := by
  have hopen := get?_openSession m
  obtain ⟨hc, hrows, hothers, hcase⟩ := update_cases (openSession_coherent hm) hopen h
  refine ⟨hc, ?_, ?_, fun s => ?_, fun s hne => ?_⟩
  · have hnext := update_next m.openSession.2 m.nextSession id changes
    rw [h] at hnext
    rw [show m'.nextSession = m.nextSession + 1 from hnext]
    exact Nat.le_succ _
  · rcases hcase with ⟨_, e⟩ | ⟨held, _, _, _, ⟨_, _, _, hs⟩ | ⟨_, _, _, hs⟩⟩
    · exact ⟨_, e ▸ hopen⟩
    · exact ⟨_, hs⟩
    · exact ⟨_, hs⟩
  · split
    · next e => rw [← e, get?_nextSession hm]
    · next hne =>
      rw [hothers s hne]
      show (m.sessions.set m.nextSession {}).get? s = _
      rw [Table.get?_set, if_neg hne]
  · exact (openSession_leaves hm s).trans (leaves_of_same hrows (hothers s hne))

/-- All that a write at once can do: fail without a trace, or change the row alone. -/
theorem write_cases {changes : Changes} {a : Except StoreError Nat} (hm : m.Coherent)
    (h : m.write id changes = (some a, m')) :
    m'.Coherent ∧ m.nextSession ≤ m'.nextSession ∧
    (∀ s, m'.sessions.get? s = m.sessions.get? s) ∧ (∀ s, Leaves s m m') ∧
    ((a ≠ .ok 1 ∧ m'.rows = m.rows) ∨
      ∃ j j', a = .ok 1 ∧ m.rows.get? id = some j ∧ changes.apply j = .ok j' ∧
        ∀ k, m'.rows.get? k = if id = k then some j' else m.rows.get? k) := by
  obtain ⟨r, m₁, hu⟩ : ∃ r m₁, m.openSession.2.update m.nextSession id changes = (r, m₁) :=
    ⟨_, _, rfl⟩
  unfold write at h
  rw [show m.openSession = (m.nextSession, m.openSession.2) from rfl] at h
  simp only [hu] at h
  cases r with
  | none => simp at h
  | some r =>
    have hopen := get?_openSession m
    obtain ⟨hc, hnext, ⟨own, hown⟩, hsessions, hleaves⟩ := update_opened hm hu
    obtain ⟨-, hr, -, hcase⟩ := update_cases (openSession_coherent hm) hopen hu
    cases r with
    | ok n =>
      obtain ⟨rfl, rfl⟩ : Except.ok n = a ∧ m₁.commit m.nextSession = m' := by simpa using h
      refine ⟨commit_coherent hc hown, hnext, fun s => ?_, leaves_all hm fun s hne => ?_, ?_⟩
      · exact (get?_close ..).trans (hsessions s)
      · exact (hleaves s hne).trans (commit_leaves hc hown hne)
      · rcases hcase with ⟨e, hsame⟩ | ⟨held, j, hj, _, ⟨_, _, e, _⟩ | ⟨j', hj', e, hs⟩⟩
        · refine Or.inl ⟨by rw [e]; simp, ?_⟩
          subst hsame
          show ((openSession m).2.session m.nextSession).staged.setAll m.rows = m.rows
          rw [session_of_get? hopen]
          rfl
        · simp at e
        · refine Or.inr ⟨j, j', e, hj, hj', fun k => ?_⟩
          rw [get?_commit hc hs, hr]
          show ((Table.get? k [(id, j')]).or (m.rows.get? k)) = _
          rw [Table.get?_cons]
          split <;> rfl
    | error err =>
      obtain ⟨rfl, rfl⟩ : Except.error err = a ∧ m₁.close m.nextSession = m' := by simpa using h
      refine ⟨close_coherent hc hown, hnext, fun s => ?_, leaves_all hm fun s hne => ?_, ?_⟩
      · exact (get?_close ..).trans (hsessions s)
      · exact (hleaves s hne).trans (close_leaves hne)
      · exact Or.inl ⟨by simp, hr⟩

/-! ## a new row -/

/-- A row that was not there was inserted. -/
theorem perform_new_row {c : StoreCall} {a : c.Answer} {j : Job} (hm : m.Coherent)
    (h : m.perform c = (some a, m')) (hno : m.rows.get? id = none)
    (hj : m'.rows.get? id = some j) : j.id = id ∧ (⟨c, a⟩ : Event) = ⟨.insert j, .ok id⟩ := by
  have hrows := perform_rows m c
  rw [h] at hrows
  have hsame (hrows : m'.rows = m.rows) : False := by
    rw [hrows, hno] at hj
    simp at hj
  rcases hrows with hrows | ⟨s, rfl⟩ | ⟨k, changes, rfl⟩ | ⟨j', rfl⟩
  · exact (hsame hrows).elim
  · obtain ⟨_, rfl⟩ := Prod.mk.inj h
    cases hs : m.sessions.get? s with
    | none =>
      refine (hsame ?_).elim
      show (m.session s).staged.setAll m.rows = m.rows
      rw [show m.session s = {} by simp [session, hs]]
      rfl
    | some own =>
      rw [get?_commit hm hs, hno, Option.or_none] at hj
      obtain ⟨r, hr⟩ := hm.held_row hs (hm.staged_held hs hj).1
      rw [hno] at hr
      simp at hr
  · obtain ⟨_, _, _, _, ⟨_, hrows⟩ | ⟨r, r', _, hr, _, hrows⟩⟩ := write_cases hm h
    · exact (hsame hrows).elim
    · rw [hrows, hno] at hj
      split at hj
      · next e =>
        rw [e, hno] at hr
        simp at hr
      · simp at hj
  · change (some (m.insert j').1, (m.insert j').2) = (some a, m') at h
    obtain ⟨ha, hm'⟩ := Prod.mk.inj h
    rcases insert_cases m j' with ⟨_, e⟩ | ⟨_, e⟩ <;> rw [e] at ha hm'
    · exact (hsame (by rw [← hm'])).elim
    · rw [← hm'] at hj
      change (m.rows.set j'.id j').get? id = some j at hj
      rw [Table.get?_set, hno] at hj
      split at hj
      · next hid =>
        obtain rfl := Option.some.inj hj
        rw [← Option.some.inj ha, hid]
        exact ⟨rfl, rfl⟩
      · simp at hj

end Memory

end JobEngine
