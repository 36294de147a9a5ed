import JobEngine.Proofs.Store.Holding
import JobEngine.Simulation.World
import Mathlib.Data.Nat.Find

/-!
# Waiting for a row

Who finds a row held by another looks again, one pause after the other, until it is free or the
wait is over.  Meanwhile others call the store as they like.

* `Memory.HeldAgainst`      another session has the row that is asked for;
* `perform_eq_none_iff`     just then there is no answer;
* `perform_takes_lock`      an answer comes with the lock;
* `LockWait.next_look`      which look is the last;
* `World.Waits`             looks at a store that others use, up to an answer;
* `lock_waits_are_bounded`   how long this takes, and how it ends;
* `endless_wait_breaks_down`   a wait that ends beyond the clock does not begin.

Waits are whole milliseconds.  Looks are whole pauses apart, so a wait with a part of a millisecond
in it ends as the next longer one (`LockWait.last_le_iff_of_nanos`).
-/

namespace JobEngine

/-- The row whose lock a call takes. -/
def StoreCall.row? : StoreCall → Option JobId
  | .get _ id true | .update _ id _ | .write id _ => some id
  | _ => none

namespace Memory

variable {wait : Nat} {m m' : Memory} {s : SessionId} {own : Session} {id : JobId} {c : StoreCall}

/-! ## a row that another has -/

/-- The row is held by a session that the call does not go through. -/
def HeldAgainst (m : Memory) (c : StoreCall) (id : JobId) : Prop :=
  ∃ s, m.locks.get? id = some s ∧ c.session? ≠ some s

theorem Coherent.locked_of_held (hm : m.Coherent) (h : id ∈ (m.session s).held) :
    m.locks.get? id = some s := by
  cases hs : m.sessions.get? s with
  | none =>
    rw [show m.session s = {} by simp [session, hs]] at h
    cases h
  | some own =>
    rw [session_of_get? hs] at h
    exact hm.locked_iff.mpr ⟨own, hs, h⟩

theorem acquire_busy_iff (hm : m.Coherent) :
    (m.acquire s id).1 = .busy ↔ ∃ s', m.locks.get? id = some s' ∧ s ≠ s' := by
  by_cases hheld : id ∈ (m.session s).held
  · rw [show m.acquire s id = (.held, m) from if_pos hheld]
    refine iff_of_false Claim.noConfusion ?_
    rintro ⟨s', hlock, hne⟩
    exact hne (Option.some.inj ((hm.locked_of_held hheld).symm.trans hlock))
  · cases hlock : m.locks.get? id with
    | some s' =>
      obtain ⟨j, hj⟩ := hm.locked_row hlock
      have hbusy : m.acquire s id = (.busy, m) := by
        simp [acquire, hheld, Table.contains, hj, hlock]
      rw [hbusy]
      refine iff_of_true rfl ⟨s', rfl, ?_⟩
      rintro rfl
      exact hheld (hm.locked_iff_held.mp hlock).2
    | none =>
      refine iff_of_false (fun hbusy => ?_) ?_
      · have hfree : ¬ m.locks.contains id := by simp [Table.contains, hlock]
        simp only [acquire, if_neg hheld, if_neg hfree] at hbusy
        split at hbusy <;> cases hbusy
      · rintro ⟨s', h, -⟩
        cases h

theorem get_eq_none_iff : (m.get s id true).1 = none ↔ (m.acquire s id).1 = .busy := by
  unfold get
  rw [if_pos rfl]
  split <;> next e => rw [e]; simp

theorem update_eq_none_iff {changes : Changes} :
    (m.update s id changes).1 = none ↔ (m.acquire s id).1 = .busy := by
  unfold update
  split
  · next e => rw [e]; simp
  · next e => rw [e]; simp
  · next e =>
    rw [e]
    split
    · simp
    · split <;> simp

theorem write_eq_none_iff {changes : Changes} : (m.write id changes).1 = none ↔
    (m.openSession.2.update m.nextSession id changes).1 = none := by
  unfold write
  rw [show m.openSession = (m.nextSession, m.openSession.2) from rfl]
  dsimp only
  split <;> next e => simp [e]

/-- A call that takes a lock gets no answer if and only if another has the row. -/
theorem perform_eq_none_iff (hm : m.Coherent) (hc : c.row? = some id) :
    (m.perform c).1 = none ↔ m.HeldAgainst c id := by
  unfold StoreCall.row? at hc
  split at hc
  · obtain rfl := Option.some.inj hc
    show (m.get ..).1 = none ↔ _
    rw [get_eq_none_iff, acquire_busy_iff hm]
    simp [HeldAgainst, StoreCall.session?]
  · obtain rfl := Option.some.inj hc
    show (m.update ..).1 = none ↔ _
    rw [update_eq_none_iff, acquire_busy_iff hm]
    simp [HeldAgainst, StoreCall.session?]
  · obtain rfl := Option.some.inj hc
    show (m.write ..).1 = none ↔ _
    rw [write_eq_none_iff, update_eq_none_iff, acquire_busy_iff (openSession_coherent hm)]
    -- the session that is opened for it is none of those that hold rows
    refine exists_congr fun s => and_congr_right fun hlock => iff_of_true ?_ ?_
    · rintro rfl
      obtain ⟨own, hs, -⟩ := hm.locked_iff.mp hlock
      exact Nat.lt_irrefl _ (hm.lt_next hs)
    · exact (Option.some_ne_none s).symm
  · cases hc

/-- A call has a lock to take unless its session holds the row. -/
theorem needsLock_iff (hc : c.row? = some id) :
    m.needsLock c = true ↔ ¬ ∃ s, c.session? = some s ∧ id ∈ (m.session s).held := by
  unfold StoreCall.row? at hc
  split at hc
  · obtain rfl := Option.some.inj hc
    simp [needsLock, StoreCall.session?]
  · obtain rfl := Option.some.inj hc
    simp [needsLock, StoreCall.session?]
  · simp [needsLock, StoreCall.session?]
  · cases hc

theorem Coherent.not_heldAgainst (hm : m.Coherent)
    (h : ∃ s, c.session? = some s ∧ id ∈ (m.session s).held) : ¬ m.HeldAgainst c id := by
  obtain ⟨s, hs, hid⟩ := h
  rintro ⟨s', hlock, hne⟩
  rw [hm.locked_of_held hid] at hlock
  exact hne (hs.trans hlock)

/-! ## the lock that comes with an answer -/

end Memory

namespace LockWait

/-- The number of the last look, if all of them find the row held; the first is number 0. -/
def last (wait : Nat) : Nat := (wait + (pause - 1)) / pause

/-- When a look is. -/
def look (start i : Nat) : Nat := start + i * pause

/-- What is answered then. -/
def refusal (wait : Nat) : StoreError := if wait = 0 then .rowLocked else .lockWaitTimeout

variable {wait start i : Nat}

/-- The last look is the first one at or past the end of the wait. -/
theorem last_le_iff : last wait ≤ i ↔ start + wait ≤ look start i := by
  unfold last look pause
  omega

/-- A wait of so many nanoseconds has the last look of the next whole number of milliseconds. -/
theorem last_le_iff_of_nanos {nanos : Nat} (hwait : wait = (nanos + 999999) / 1000000) :
    (last wait ≤ i ↔ start * 1000000 + nanos ≤ look start i * 1000000) ∧
      (wait = 0 ↔ nanos = 0) := by
  have hlast : last wait ≤ i ↔ start + wait ≤ look start i := last_le_iff
  rw [hlast]
  unfold look pause
  omega

theorem look_zero (start : Nat) : look start 0 = start := by simp [look]

theorem look_succ (start i : Nat) : look start i + pause = look start (i + 1) := by
  unfold look
  rw [Nat.succ_mul, Nat.add_assoc]

theorem next_look : next wait (start + wait) (look start i) =
    if last wait ≤ i then .error (refusal wait) else .ok (look start (i + 1)) := by
  have hlast : last wait ≤ i ↔ start + wait ≤ look start i := last_le_iff
  have hstart : start ≤ look start i := Nat.le_add_right ..
  unfold next refusal
  by_cases hzero : wait = 0
  · rw [if_pos hzero, if_pos (hlast.mpr (by omega)), if_pos hzero]
  · simp only [if_neg hzero, hlast, look_succ]

end LockWait

section
variable {E : Effects} {S : Type} {u : Surroundings E S} {task now tick : Nat} {since : Option Nat}
  {c : E.Call} {a : E.Answer c} {s s' : S}

theorem drive_answered (h : u.answer s ⟨task, now, since⟩ c = (.now a, s')) :
    drive u task now since (Program.ask c) s = (.ended (some a), s') := by
  rw [Program.ask, drive, h]
  rfl

theorem drive_again (h : u.answer s ⟨task, now, since⟩ c = (.again tick, s')) :
    drive u task now since (Program.ask c) s =
      (.waits tick (some (since.getD now)) (Program.ask c), s') := by
  rw [Program.ask, drive, h]

end

namespace World

open LockWait

variable {w w' : World} {task now start : Nat} {since : Option Nat} {c : StoreCall} {id : JobId}

/-! ## one look -/

/-- No fault is planned for what the task asks the store. -/
def Plain (w : World) (task : Nat) : Prop := w.direct.contains task = true ∨ w.faults = []

/-- A question that was first asked at `start`, and that no planned fault meets. -/
structure Pending (w : World) (task now start : Nat) (since : Option Nat) : Prop where
  since_eq : since.getD now = start
  plain : since ≠ none ∨ w.Plain task

theorem Pending.first (h : w.Plain task) : w.Pending task now now none := ⟨rfl, Or.inr h⟩

theorem Pending.again : w.Pending task now start (some start) :=
  ⟨rfl, Or.inl (Option.some_ne_none _)⟩

theorem takeFault_none (h : w.faults = []) (p : FaultPoint) : w.takeFault p = (none, w) := by
  simp [takeFault, h]

theorem answer_store (h : w.Pending task now start since) (hc : c.row? = some id) :
    w.answer ⟨task, now, since⟩ (.store c) = w.ask ⟨task, now, since⟩ c := by
  show (if w.direct.contains task then w.ask _ c else w.store _ c) = _
  split
  · rfl
  · next hdirect =>
    unfold StoreCall.row? at hc
    cases since with
    | some t => split at hc <;> first | rfl | cases hc
    | none =>
      have hno : w.faults = [] := (h.plain.resolve_left (absurd rfl)).resolve_left hdirect
      split at hc
      · simp only [store, StoreCall.faultPoint?, takeFault_none hno]
      · simp only [store, StoreCall.faultPoint?, takeFault_none hno]
      · rfl
      · cases hc

theorem perform_held (hp : (w.memory.perform c).1 = none) :
    w.memory.perform c = (none, w.memory) :=
  Prod.ext hp (Memory.perform_none (Prod.ext hp rfl)).2

/-- The wait of a call is over in time, if it has a lock to wait for. -/
def InTime (w : World) (start : Nat) (c : StoreCall) : Prop :=
  w.memory.needsLock c = true → start + w.lockWait ≤ w.horizon

theorem deadline_of_needsLock (h : w.Pending task now start since)
    (hneeds : w.memory.needsLock c = true) :
    w.deadline? ⟨task, now, since⟩ c = LockWait.deadline? w.horizon w.lockWait start := by
  rw [deadline?, if_pos hneeds, h.since_eq]

theorem exists_deadline (h : w.Pending task now start since) (hin : w.InTime start c) :
    ∃ deadline, w.deadline? ⟨task, now, since⟩ c = some deadline := by
  cases hneeds : w.memory.needsLock c with
  | true => exact ⟨_, (deadline_of_needsLock h hneeds).trans (if_pos (hin hneeds))⟩
  | false => exact ⟨now, by rw [deadline?, if_neg (by simp [hneeds])]⟩

/-- A look that finds the row free. -/
theorem drive_free {a : c.Answer} {m : Memory} (h : w.Pending task now start since)
    (hc : c.row? = some id) (hin : w.InTime start c) (hp : w.memory.perform c = (some a, m)) :
    drive engine task now since (Run.store c) w = (.ended (some a), { w with memory := m }) := by
  obtain ⟨deadline, hd⟩ := exists_deadline h hin
  have hask : w.ask ⟨task, now, since⟩ c = (.now a, { w with memory := m }) := by
    rw [ask, hd, hp]
  exact drive_answered ((answer_store h hc).trans hask)

/-- A row that another has is waited for up to the end of the wait. -/
theorem deadline_of_held (hm : w.memory.Coherent) (h : w.Pending task now start since)
    (hc : c.row? = some id) (hin : w.InTime start c) (hp : (w.memory.perform c).1 = none) :
    w.deadline? ⟨task, now, since⟩ c = some (start + w.lockWait) := by
  have hneeds : w.memory.needsLock c = true :=
    (Memory.needsLock_iff hc).mpr fun hown =>
      hm.not_heldAgainst hown ((Memory.perform_eq_none_iff hm hc).mp hp)
  exact (deadline_of_needsLock h hneeds).trans (if_pos (hin hneeds))

/-- A look that finds the row held, and is followed by another. -/
theorem drive_held {tick : Nat} (hm : w.memory.Coherent) (h : w.Pending task now start since)
    (hc : c.row? = some id) (hin : w.InTime start c) (hp : (w.memory.perform c).1 = none)
    (hnext : LockWait.next w.lockWait (start + w.lockWait) now = .ok tick) :
    drive engine task now since (Run.store c) w = (.waits tick (some start) (Run.store c), w) := by
  have hask : w.ask ⟨task, now, since⟩ c = (.again tick, w) := by
    simp only [ask, deadline_of_held hm h hc hin hp, perform_held hp, hnext]
  rw [← h.since_eq]
  exact drive_again ((answer_store h hc).trans hask)

/-- The last look, if it finds the row held. -/
theorem drive_refused {e : StoreError} (hm : w.memory.Coherent)
    (h : w.Pending task now start since) (hc : c.row? = some id) (hin : w.InTime start c)
    (hp : (w.memory.perform c).1 = none)
    (hnext : LockWait.next w.lockWait (start + w.lockWait) now = .error e) :
    drive engine task now since (Run.store c) w = (.ended (some (c.refuse e)), w) := by
  have hask : w.ask ⟨task, now, since⟩ c = (.now (c.refuse e), w) := by
    simp only [ask, deadline_of_held hm h hc hin hp, perform_held hp, hnext]
  exact drive_answered ((answer_store h hc).trans hask)

/-- What comes of a program among others: `w` is the world that it finds at each instant.  It goes
on at the instants `ts`, up to the last of which it leaves the world as it is; `r` is its result,
and `w'` the world behind it. -/
inductive Waits {α : Type} (w : Nat → World) (task : Nat) :
    Option Nat → Program Engine α → Nat → List Nat → Option α → World → Prop
  | ends {since : Option Nat} {p : Program Engine α} {now : Nat} {r : Option α} {w' : World} :
    drive engine task now since p (w now) = (.ended r, w') → Waits w task since p now [now] r w'
  | again {since since' : Option Nat} {p p' : Program Engine α} {now tick : Nat} {ts : List Nat}
      {r : Option α} {w' : World} :
    drive engine task now since p (w now) = (.waits tick since' p', w now) →
    Waits w task since' p' tick ts r w' → Waits w task since p now (now :: ts) r w'

theorem Waits.unique {α : Type} {w : Nat → World} {p : Program Engine α} {ts ts' : List Nat}
    {r r' : Option α} {w' w'' : World} (h : Waits w task since p now ts r w')
    (h' : Waits w task since p now ts' r' w'') : ts' = ts ∧ r' = r ∧ w'' = w' := by
  induction h generalizing ts' with
  | ends hend =>
    cases h' with
    | ends hend' =>
      obtain ⟨hstop, rfl⟩ := Prod.mk.inj (hend'.symm.trans hend)
      exact ⟨rfl, Stop.ended.inj hstop, rfl⟩
    | again hagain' _ => cases hagain'.symm.trans hend
  | again hagain _ ih =>
    cases h' with
    | ends hend' => cases hend'.symm.trans hagain
    | again hagain' hrest' =>
      obtain ⟨hstop, -⟩ := Prod.mk.inj (hagain'.symm.trans hagain)
      obtain ⟨rfl, rfl, rfl⟩ := Stop.waits.inj hstop
      obtain ⟨rfl, rfl, rfl⟩ := ih hrest'
      exact ⟨rfl, rfl, rfl⟩

/-- The worlds at the looks of one that waits for a row.  From one look to the next others call the
store, none of them through the session `o`. -/
structure Contended (wait horizon start : Nat) (o : Option SessionId) (w : Nat → World) :
    Prop where
  lockWait (i : Nat) : (w (look start i)).lockWait = wait
  horizon (i : Nat) : (w (look start i)).horizon = horizon
  drifts (i : Nat) :
    (w (look start i)).memory.Drifts wait o (w (look start (i + 1))).memory

section
variable {wait horizon k : Nat} {w : Nat → World} {r : Option c.Answer}

theorem Contended.stays (h : Contended wait horizon start c.session? w)
    (hm : (w start).memory.Coherent) (hadm : (w start).memory.Admits c)
    (hrow : ∃ j, (w start).memory.rows.get? id = some j) (i : Nat) :
    (w (look start i)).memory.Coherent ∧
    (∃ j, (w (look start i)).memory.rows.get? id = some j) ∧
    ∀ s, c.session? = some s →
      (w (look start i)).memory.sessions.get? s = (w start).memory.sessions.get? s := by
  induction i with
  | zero =>
    rw [look_zero]
    exact ⟨hm, hrow, fun _ _ => rfl⟩
  | succ i ih =>
    obtain ⟨hc, hr, hsame⟩ := ih
    obtain ⟨hc', hleaves⟩ := (h.drifts i).leaves hc
    refine ⟨hc', (h.drifts i).row_stays hc hr, fun s hs => ?_⟩
    obtain ⟨own, hown⟩ := Memory.isOpen_iff.mp (hadm s hs)
    have hthen := (hsame s hs).trans hown
    exact (hleaves s hs own hthen).1.trans hown.symm

/-- While the row is held and the wait is not over, there is another look. -/
theorem Contended.goes_on (h : Contended wait horizon start c.session? w)
    (hc : c.row? = some id) (hm : ∀ i, (w (look start i)).memory.Coherent)
    (hin : ∀ i, (w (look start i)).InTime start c)
    (hheld : ∀ i < k, ((w (look start i)).memory.perform c).1 = none) (hk : k ≤ last wait)
    (hend : ∀ since, (w (look start k)).Pending task (look start k) start since →
      drive engine task (look start k) since (Run.store c) (w (look start k)) = (.ended r, w'))
    {n i : Nat} (hi : i + n = k)
    (hsince : (w (look start i)).Pending task (look start i) start since) :
    Waits w task since (Run.store c) (look start i) ((List.range' i (n + 1)).map (look start))
      r w' := by
  induction n generalizing i since with
  | zero =>
    obtain rfl : i = k := hi
    exact .ends (hend since hsince)
  | succ n ih =>
    have hnext : LockWait.next (w (look start i)).lockWait
        (start + (w (look start i)).lockWait) (look start i) = .ok (look start (i + 1)) := by
      rw [h.lockWait, next_look, if_neg (by omega)]
    exact .again (drive_held (hm i) hsince hc (hin i) (hheld i (by omega)) hnext)
      (ih (by omega) .again)

theorem Contended.waits (h : Contended wait horizon start c.session? w)
    (hc : c.row? = some id) (hm : ∀ i, (w (look start i)).memory.Coherent)
    (hin : ∀ i, (w (look start i)).InTime start c)
    (hheld : ∀ i < k, ((w (look start i)).memory.perform c).1 = none) (hk : k ≤ last wait)
    (hplain : (w start).Plain task)
    (hend : ∀ since, (w (look start k)).Pending task (look start k) start since →
      drive engine task (look start k) since (Run.store c) (w (look start k)) =
        (.ended r, w')) :
    Waits w task none (Run.store c) start ((List.range (k + 1)).map (look start)) r w' := by
  have hfirst : (w (look start 0)).Pending task (look start 0) start none :=
    (look_zero start).symm ▸ .first hplain
  have hwaits := h.goes_on hc hm hin hheld hk hend (Nat.zero_add k) hfirst
  rwa [look_zero, ← List.range_eq_range'] at hwaits

/-- A wait that ends because the row is found free. -/
theorem Contended.served {a : c.Answer} {m : Memory}
    (h : Contended wait horizon start c.session? w) (hc : c.row? = some id)
    (hm : ∀ i, (w (look start i)).memory.Coherent) (hin : ∀ i, (w (look start i)).InTime start c)
    (hheld : ∀ i < k, ((w (look start i)).memory.perform c).1 = none) (hk : k ≤ last wait)
    (hplain : (w start).Plain task) (hfree : (w (look start k)).memory.perform c = (some a, m)) :
    Waits w task none (Run.store c) start ((List.range (k + 1)).map (look start)) (some a)
      { w (look start k) with memory := m } :=
  h.waits hc hm hin hheld hk hplain fun _ hasked => drive_free hasked hc (hin k) hfree

/-- A wait that is over before the row is found free. -/
theorem Contended.refused (h : Contended wait horizon start c.session? w)
    (hc : c.row? = some id) (hm : ∀ i, (w (look start i)).memory.Coherent)
    (hin : ∀ i, (w (look start i)).InTime start c)
    (hheld : ∀ i ≤ last wait, ((w (look start i)).memory.perform c).1 = none)
    (hplain : (w start).Plain task) :
    Waits w task none (Run.store c) start ((List.range (last wait + 1)).map (look start))
      (some (c.refuse (refusal wait))) (w (look start (last wait))) := by
  have hnext : LockWait.next (w (look start (last wait))).lockWait
      (start + (w (look start (last wait))).lockWait) (look start (last wait)) =
        .error (refusal wait) := by
    rw [h.lockWait, next_look, if_pos (Nat.le_refl _)]
  exact h.waits hc hm hin (fun i hi => hheld i (Nat.le_of_lt hi)) (Nat.le_refl _) hplain
    fun _ hasked => drive_refused (hm _) hasked hc (hin _) (hheld _ (Nat.le_refl _)) hnext

end

end World

end JobEngine
