import JobEngine.Job.Basic

/-!
# The retry schedule

Attempt number `n` of a job, when it fails and is not the last, is followed by another one
`tryPeriod * n` seconds later, and never before the job was due.

* `Job.nextAttempt`    the number of the attempt that an execution makes;
* `Job.isLastChance`   no attempt follows it;
* `Job.onFailure`      what follows a failure;
* `Job.failures`       what follows a row of them.

A delay may be longer than a span of time can be, or lead off the calendar; then there is no
schedule.  Here and elsewhere the program is taken as built with overflow checks: it breaks down
where a sum or a product leaves its machine integers, and does not wrap around.
-/

namespace JobEngine

/-- What follows a failed attempt. -/
inductive Decision
  | retry (attempt : UInt32) (runAt : Instant)
  | exhausted (attempt : UInt32)
deriving DecidableEq

def Decision.attempt : Decision → UInt32
  | .retry n _ => n
  | .exhausted n => n

namespace Job

/-- The next attempt is one more than those used up, and never above `tryMax`. -/
def nextAttempt (j : Job) : UInt32 := if j.trys < j.tryMax then j.trys + 1 else j.tryMax

def isLastChance (j : Job) : Bool := j.tryMax.toNat ≤ j.trys.toNat + 1

/-- The longest span of time, in seconds. -/
def longestDelay : Nat := 9223372036854775

/-- The seconds between a failed attempt and the one behind it.  A product that a signed number of 64
bits does not hold is longer than any span. -/
def retryDelay? (j : Job) (attempt : UInt32) : Option Nat :=
  let secs := j.tryPeriod.toNat * attempt.toNat
  if secs ≤ longestDelay then some secs else none

/-- What follows a failure at `now`. -/
def onFailure (j : Job) (now : Instant) : Option Decision :=
  if j.isLastChance then some (.exhausted j.nextAttempt)
  else do
    let secs ← j.retryDelay? j.nextAttempt
    let at_ ← now.addSecs? secs
    some (.retry j.nextAttempt (max at_ j.runAt))

/-- The counters behind a decision. -/
def follow (j : Job) : Decision → Job
  | .retry n runAt => { j with trys := n, runAt }
  | .exhausted n => { j with trys := n }

/-- The decisions on failures at the given times, up to the last attempt, and the job behind
them. -/
def failures (j : Job) : List Instant → Option (List Decision × Job)
  | [] => some ([], j)
  | now :: later => do
    match ← j.onFailure now with
    | .exhausted n => some ([.exhausted n], j.follow (.exhausted n))
    | .retry n runAt =>
      let (ds, j') ← (j.follow (.retry n runAt)).failures later
      some (.retry n runAt :: ds, j')

/-- The same for failures that come each some seconds behind the one before.  The clock moves only
while attempts are left. -/
def failuresAfter (j : Job) (now : Instant) : List Int → Option (List Decision × Job)
  | [] => some ([], j)
  | secs :: later => do
    let now ← now.addSecs? secs
    match ← j.onFailure now with
    | .exhausted n => some ([.exhausted n], j.follow (.exhausted n))
    | .retry n runAt =>
      let (ds, j') ← (j.follow (.retry n runAt)).failuresAfter now later
      some (.retry n runAt :: ds, j')

theorem toNat_nextAttempt (j : Job) :
    j.nextAttempt.toNat = min (j.trys.toNat + 1) j.tryMax.toNat := by
  unfold nextAttempt
  have hm := j.tryMax.toNat_lt
  split
  · next h =>
    have := UInt32.lt_iff_toNat_lt.1 h
    rw [UInt32.toNat_add, UInt32.toNat_one, Nat.mod_eq_of_lt (by omega)]
    omega
  · next h =>
    have := mt UInt32.lt_iff_toNat_lt.2 h
    omega

theorem toNat_nextAttempt_of_lt {j : Job} (h : j.trys.toNat < j.tryMax.toNat) :
    j.nextAttempt.toNat = j.trys.toNat + 1 := by
  rw [toNat_nextAttempt]
  omega

theorem attempt_of_onFailure {j : Job} {now : Instant} {e : Decision}
    (h : j.onFailure now = some e) : e.attempt = j.nextAttempt := by
  unfold onFailure at h
  split at h
  · exact Option.some.inj h ▸ rfl
  · obtain ⟨secs, _, h⟩ := Option.bind_eq_some_iff.mp h
    obtain ⟨at_, _, h⟩ := Option.bind_eq_some_iff.mp h
    exact Option.some.inj h ▸ rfl

/-- A job that is tried again has an attempt left, and is not due earlier than it was. -/
theorem of_onFailure_retry {j : Job} {now runAt : Instant} {n : UInt32}
    (h : j.onFailure now = some (.retry n runAt)) :
    j.trys.toNat + 1 < j.tryMax.toNat ∧ j.runAt ≤ runAt := by
  unfold onFailure at h
  split at h
  · simp at h
  · next hlast =>
    obtain ⟨secs, _, h⟩ := Option.bind_eq_some_iff.mp h
    obtain ⟨at_, _, h⟩ := Option.bind_eq_some_iff.mp h
    injection h with h
    injection h with _ h
    refine ⟨by simpa [isLastChance] using hlast, ?_⟩
    rw [← h]
    exact Instant.le_max_right at_ j.runAt

/-- A job that is given up has used up its attempts. -/
theorem of_onFailure_exhausted {j : Job} {now : Instant} {n : UInt32}
    (h : j.onFailure now = some (.exhausted n)) :
    n = j.nextAttempt ∧ j.tryMax.toNat ≤ j.trys.toNat + 1 := by
  refine ⟨attempt_of_onFailure h, ?_⟩
  unfold onFailure at h
  split at h
  · next hlast => exact of_decide_eq_true hlast
  · obtain ⟨secs, _, h⟩ := Option.bind_eq_some_iff.mp h
    obtain ⟨at_, _, h⟩ := Option.bind_eq_some_iff.mp h
    simp at h

end Job

end JobEngine
