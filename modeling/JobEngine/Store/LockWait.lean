import JobEngine.Store.Error

/-!
# Waiting for a row lock

Whoever finds a row held looks again every five milliseconds, up to and including the first look
at or past the end of the wait.  A wait of zero is no wait.  The end of the wait is worked out
before the first look, and whoever waits beyond the clock breaks down there.

* `LockWait.deadline?`   the end of a wait;
* `LockWait.next`        the next look, or why there is none.
-/

namespace JobEngine.LockWait

/-- Milliseconds between looks. -/
def pause : Nat := 5

/-- How long a wait is when nobody says. -/
def standard : Nat := 5000

/-- The last millisecond of a clock that counts up to `2 ^ 63 - 1` seconds. -/
def horizon : Nat := 9223372036854775808 * 1000 - 1

/-- The end of a wait of `wait` that begins at `start`; nothing if the clock does not go so far. -/
def deadline? (horizon wait start : Nat) : Option Nat :=
  if start + wait ≤ horizon then some (start + wait) else none

/-- After a look at `now` that found the row held, in a wait of `wait` that ends at `deadline`. -/
def next (wait deadline now : Nat) : Except StoreError Nat :=
  if wait = 0 then .error .rowLocked
  else if deadline ≤ now then .error .lockWaitTimeout
  else .ok (now + pause)

/-- A wait ends because the row is held, for no other reason. -/
theorem next_eq_error {wait deadline now : Nat} {e : StoreError}
    (h : next wait deadline now = .error e) : e.isContention := by
  unfold next at h
  split at h
  · exact Except.error.inj h ▸ rfl
  · split at h
    · exact Except.error.inj h ▸ rfl
    · simp at h

end JobEngine.LockWait
