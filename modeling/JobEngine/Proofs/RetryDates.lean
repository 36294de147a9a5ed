import JobEngine.Proofs.Backoff
import JobEngine.Proofs.Store.Origin

/-!
# Retries and the end of the calendar

The date of a retry is a product of two counters away from the failure.  Nothing bounds these when
a job is made, so there may be no such date.

* `Instant.InYears`          the instants of some years;
* `Instant.isSome_addSecs?`  how far one can go on from an instant;
* `Job.onFailure_isSome`     a failure is decided on unless an attempt is left and its date is off
                             the calendar;
* `retries_fit_the_calendar`   of which jobs every failure is decided on.

The calendar is the first of the bounds to be met: a date on it is never too long a span away, and
the count of its seconds is a signed number of 64 bits.
-/

namespace JobEngine

namespace Calendar

/-- The first second of a year. -/
def yearStart (year : Int) : Int := dayNumber ⟨year, 1, 1⟩ * 86400

example : lastSecond = yearStart 262143 - 1 := by decide

/-- The seconds of the calendar that are left behind the year 9999. -/
def secondsLeft : Nat := 7956864576000

example : (secondsLeft : Int) = yearStart 262143 - yearStart 10000 := by decide

end Calendar

namespace Instant

/-- The instants of the years from `first` to `last`. -/
def InYears (first last : Int) (t : Instant) : Prop :=
  Calendar.yearStart first ≤ t.secs ∧ t.secs < Calendar.yearStart (last + 1)

instance (first last : Int) (t : Instant) : Decidable (t.InYears first last) :=
  inferInstanceAs (Decidable (_ ∧ _))

theorem isSome_of? {secs : Int} {nanos : Nat} : (of? secs nanos).isSome ↔ InRange secs nanos := by
  unfold of?
  split
  · next h => exact iff_of_true rfl h
  · next h => exact iff_of_false Bool.false_ne_true h

/-- There is a later instant unless it is off the calendar. -/
theorem isSome_addSecs? (t : Instant) (secs : Nat) :
    (t.addSecs? secs).isSome ↔ t.secs + secs ≤ Calendar.lastSecond := by
  have hge := t.secs_ge
  have hnanos := t.nanos_lt
  unfold addSecs?
  split
  · next h =>
    rw [isSome_of?]
    refine ⟨fun h' => h'.2.1, fun hle => ⟨by omega, hle, hnanos, fun hn => ?_⟩⟩
    have hstays : (secs : Int) = 0 := h.resolve_left (by omega)
    rw [hstays, Int.add_zero]
    exact t.leap hn
  · next h =>
    -- a leap second is left behind
    obtain ⟨hleap, hmoves⟩ := not_or.mp h
    rw [if_pos (by omega), isSome_of?]
    exact ⟨fun h' => h'.2.1, fun hle => ⟨by omega, hle, by omega, fun hn => by omega⟩⟩

end Instant

namespace Job

variable {j : Job} {now : Instant}

/-- The seconds from a failure to the attempt that follows it. -/
def delay (j : Job) : Nat := j.tryPeriod.toNat * (j.trys.toNat + 1)

theorem onFailure_eq_map (hleft : j.trys.toNat + 1 < j.tryMax.toNat) :
    j.onFailure now =
      (now.addSecs? j.delay).map fun due => .retry j.nextAttempt (max due j.runAt) := by
  cases hdue : now.addSecs? j.delay with
  | some due => exact onFailure_of_left hleft rfl hdue
  | none =>
    have hlast : j.isLastChance = false := decide_eq_false (by omega)
    have hn : j.nextAttempt.toNat = j.trys.toNat + 1 := toNat_nextAttempt_of_lt (by omega)
    have hdelay : j.retryDelay? j.nextAttempt = some j.delay ∨
        j.retryDelay? j.nextAttempt = none := by
      simp only [retryDelay?, hn, delay]
      split
      · exact Or.inl rfl
      · exact Or.inr rfl
    unfold onFailure
    rw [hlast, if_neg Bool.false_ne_true]
    rcases hdelay with h | h <;> rw [h]
    · simp only [Option.bind_eq_bind, Option.bind_some, hdue, Option.bind_none, Option.map_none]
    · rfl

/-- A failure is decided on unless an attempt is left and its date is off the calendar. -/
theorem onFailure_isSome (hj : j.trys.toNat < j.tryMax.toNat) :
    (j.onFailure now).isSome ↔
      (j.trys.toNat + 1 < j.tryMax.toNat → now.secs + j.delay ≤ Calendar.lastSecond) := by
  rcases Nat.lt_or_ge (j.trys.toNat + 1) j.tryMax.toNat with hleft | hnone
  · rw [onFailure_eq_map hleft, Option.isSome_map, Instant.isSome_addSecs?]
    exact ⟨fun h _ => h, fun h => h hleft⟩
  · rw [onFailure_of_last (by omega)]
    exact iff_of_true rfl fun h => absurd h (by omega)

/-- The greatest signed number of 64 bits. -/
def greatestCount : Nat := 9223372036854775807

/-- No span of time that stays on the calendar is too long. -/
theorem delay_le (h : now.secs + j.delay ≤ Calendar.lastSecond) :
    j.delay ≤ longestDelay ∧ j.delay ≤ greatestCount := by
  have hge := now.secs_ge
  simp only [Calendar.firstSecond, Calendar.lastSecond] at hge h
  unfold longestDelay greatestCount
  omega

/-- The longest of the delays is the one behind the last attempt but one. -/
theorem delay_le_longest (hleft : j.trys.toNat + 1 < j.tryMax.toNat) :
    j.delay ≤ j.tryPeriod.toNat * (j.tryMax.toNat - 1) :=
  Nat.mul_le_mul_left _ (by omega)

theorem exists_longest (hmax : 1 < j.tryMax.toNat) :
    ∃ j', j.SameOrigin j' ∧ j'.trys.toNat + 1 < j'.tryMax.toNat ∧
      j'.delay = j.tryPeriod.toNat * (j.tryMax.toNat - 1) := by
  have htrys : (j.tryMax - 2).toNat = j.tryMax.toNat - 2 :=
    UInt32.toNat_sub_of_le _ _ (UInt32.le_iff_toNat_le.mpr hmax)
  refine ⟨{ j with trys := j.tryMax - 2 }, ⟨rfl, rfl, rfl, rfl, rfl, rfl⟩, ?_, ?_⟩
  · show (j.tryMax - 2).toNat + 1 < j.tryMax.toNat
    omega
  · show j.tryPeriod.toNat * ((j.tryMax - 2).toNat + 1) = _
    rw [htrys]
    congr 1
    omega

end Job

theorem NewJob.counters_of_toJob {n : NewJob} {id : JobId} {now : Instant} {j : Job}
    (h : n.toJob id now = .ok j) : j.tryPeriod = n.tryPeriod ∧ j.tryMax = n.tryMax := by
  unfold toJob at h
  split at h
  · cases h
  · split at h
    · cases h
    · obtain rfl := Except.ok.inj h
      exact ⟨rfl, rfl⟩

/-- The last second of the year 9999. -/
def Instant.yearsEnd : Instant := (Instant.of? 253402300799 0).getD .epoch

theorem Instant.yearsEnd_secs : yearsEnd.secs = 253402300799 := by decide

/-- **Which retries have a date.**  Take a job that was made from any request and has attempts
left, however many it has used up.  A failure between the years 1970 and 9999 is decided on if and
only if it is that of the last attempt or the date of the next one is on the calendar; its delay is
no longer than a span may be then, and a signed number of 64 bits.  So each failure of the job is
decided on if and only if the longest of its delays does not pass what is left of the calendar
behind the year 9999. -/
theorem retries_fit_the_calendar {n : NewJob} {id : JobId} {born : Instant} {j₀ : Job}
    (hnew : n.toJob id born = .ok j₀) :
    (∀ j now, j₀.SameOrigin j → j.trys < j.tryMax → now.InYears 1970 9999 →
      ((j.onFailure now).isSome ↔
        (j.trys.toNat + 1 < j.tryMax.toNat → now.secs + j.delay ≤ Calendar.lastSecond)) ∧
      (now.secs + j.delay ≤ Calendar.lastSecond →
        j.delay ≤ Job.longestDelay ∧ j.delay ≤ Job.greatestCount)) ∧
    ((∀ j now, j₀.SameOrigin j → j.trys < j.tryMax → now.InYears 1970 9999 →
        (j.onFailure now).isSome) ↔
      n.tryPeriod.toNat * (n.tryMax.toNat - 1) ≤ Calendar.secondsLeft) := by
  obtain ⟨hperiod, hmax⟩ := NewJob.counters_of_toJob hnew
  rw [← hperiod, ← hmax]
  refine ⟨fun j now _ hj _ => ⟨Job.onFailure_isSome (UInt32.lt_iff_toNat_lt.mp hj), Job.delay_le⟩,
    fun hall => ?_, fun hbound j now hsame hj hnow => ?_⟩
  · rcases Nat.lt_or_ge 1 j₀.tryMax.toNat with hmore | hone
    · obtain ⟨j, hsame, hleft, hdelay⟩ := Job.exists_longest hmore
      have hj : j.trys.toNat < j.tryMax.toNat := by omega
      have hsome := hall j .yearsEnd hsame (UInt32.lt_iff_toNat_lt.mpr hj) (by decide)
      have hend := (Job.onFailure_isSome hj).mp hsome hleft
      rw [hdelay, Instant.yearsEnd_secs] at hend
      simp only [Calendar.lastSecond] at hend
      unfold Calendar.secondsLeft
      omega
    · have hzero : j₀.tryMax.toNat - 1 = 0 := by omega
      rw [hzero, Nat.mul_zero]
      exact Nat.zero_le _
  · rw [Job.onFailure_isSome (UInt32.lt_iff_toNat_lt.mp hj)]
    intro hleft
    have hdelay := Job.delay_le_longest hleft
    rw [hsame.tryPeriod, hsame.tryMax] at hdelay
    have hyear : now.secs < 253402300800 := hnow.2
    simp only [Calendar.secondsLeft] at hbound
    simp only [Calendar.lastSecond]
    omega

/-- A request as most are: three attempts, ten minutes apart. -/
def ordinary : NewJob := { action := "Sync", params := .null }

theorem ordinary_failures_are_decided : ∃ j₀, ordinary.toJob Memory.sample.id .epoch = .ok j₀ ∧
    ∀ j now, j₀.SameOrigin j → j.trys < j.tryMax → now.InYears 1970 9999 →
      (j.onFailure now).isSome :=
  ⟨_, rfl, (retries_fit_the_calendar (n := ordinary) rfl).2.mpr (by decide)⟩

/-- A request for as many attempts as can be counted, as far apart. -/
def farApart : NewJob :=
  { action := "Sync", params := .null, tryPeriod := 4294967295, tryMax := 4294967295 }

/-- The start of 2024. -/
def Instant.newYear : Instant := (Instant.of? 1704067200 0).getD .epoch

/-- The job that is made of it then. -/
def farOff : Job :=
  { Memory.sample with
    action := "Sync", runAt := .newYear, tryPeriod := 4294967295, tryMax := 4294967295,
    created := .newYear, updated := .newYear }

/-- The failure of its attempt number 1920 leads off the calendar. -/
theorem failure_without_a_date : farApart.toJob Memory.sample.id .newYear = .ok farOff ∧
    ∃ j, farOff.SameOrigin j ∧ j.trys = 1919 ∧ j.trys < j.tryMax ∧
      Instant.newYear.InYears 1970 9999 ∧ j.onFailure .newYear = none :=
  ⟨rfl, { farOff with trys := 1919 }, ⟨rfl, rfl, rfl, rfl, rfl, rfl⟩, rfl, by decide, by decide,
    rfl⟩

end JobEngine
