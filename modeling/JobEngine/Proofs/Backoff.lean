import JobEngine.Job.Retry

/-!
# The retry schedule, run to its end

A job with attempts left fails again and again, at times that may come in any order.

* `Job.after`          the record behind a row of decisions;
* `Job.CanWait`        the calendar reaches every date that the schedule asks for;
* `Backoff`            what the row of decisions looks like, failure by failure;
* `failures_backoff`   the decisions on failures are such a row.

The clock is not asked to go forward: the date of a failure enters a decision only through the
date it leads to, and the one that was set before is kept if it is later.
-/

namespace JobEngine

/-- A date that is reached is reached by a span that is not too long. -/
theorem Instant.le_longestDelay {t due : Instant} {secs : Nat}
    (h : t.addSecs? secs = some due) : secs ≤ Job.longestDelay := by
  have hge := t.secs_ge
  have hle := due.secs_le
  simp only [Calendar.firstSecond] at hge
  simp only [Calendar.lastSecond] at hle
  have hdue : t.secs + secs ≤ due.secs := by
    unfold Instant.addSecs? at h
    split at h
    · exact Int.le_of_eq (Instant.of?_eq_some h).1.symm
    · split at h
      · exact Int.le_of_eq (Instant.of?_eq_some h).1.symm
      · have := (Instant.of?_eq_some h).1
        omega
  show secs ≤ 9223372036854775
  omega

namespace Job

/-- The record behind a row of decisions. -/
def after (j : Job) (ds : List Decision) : Job := ds.foldl follow j

theorem after_cons (j : Job) (d : Decision) (ds : List Decision) :
    j.after (d :: ds) = (j.follow d).after ds := rfl

/-- There is a date for the attempt behind each of the failures but the last. -/
def CanWait (j : Job) (ts : List Instant) : Prop :=
  ∀ (i : Nat) (t : Instant), ts[i]? = some t → j.trys.toNat + i + 1 < j.tryMax.toNat →
    (t.addSecs? ↑(j.tryPeriod.toNat * (j.trys.toNat + i + 1))).isSome

variable {j : Job} {now due : Instant} {ts : List Instant}

theorem onFailure_of_left {secs : Nat} (hleft : j.trys.toNat + 1 < j.tryMax.toNat)
    (hsecs : j.tryPeriod.toNat * (j.trys.toNat + 1) = secs) (hdue : now.addSecs? secs = some due) :
    j.onFailure now = some (.retry j.nextAttempt (max due j.runAt)) := by
  have hlast : j.isLastChance = false := decide_eq_false (by omega)
  have hn : j.nextAttempt.toNat = j.trys.toNat + 1 := toNat_nextAttempt_of_lt (by omega)
  have hdelay : j.retryDelay? j.nextAttempt = some secs := by
    unfold retryDelay?
    rw [hn, hsecs]
    exact if_pos (Instant.le_longestDelay hdue)
  unfold onFailure
  rw [hlast, hdelay]
  simp only [Bool.false_eq_true, if_false, Option.bind_eq_bind, Option.bind_some, hdue]

theorem onFailure_of_last (hlast : j.trys.toNat + 1 = j.tryMax.toNat) :
    j.onFailure now = some (.exhausted j.tryMax) := by
  have hn : j.nextAttempt = j.tryMax := by
    apply UInt32.toNat_inj.mp
    rw [toNat_nextAttempt_of_lt (by omega), hlast]
  have htrue : j.isLastChance = true := decide_eq_true (by omega)
  unfold onFailure
  rw [htrue, if_pos rfl, hn]

end Job

open Job

/-- The decisions `ds` on failures at the times `ts`. -/
structure Backoff (j : Job) (ts : List Instant) (ds : List Decision) : Prop where
  /-- Each failure is decided on, until the attempts are used up. -/
  length_eq : ds.length = min ts.length (j.tryMax.toNat - j.trys.toNat)
  /-- Attempts are numbered one by one, and each is due a period longer behind the failure than
  the one before it, or when that one was due if this is later. -/
  retried : ∀ (i : Nat) (t : Instant), ts[i]? = some t → j.trys.toNat + i + 1 < j.tryMax.toNat →
    ∃ (n : UInt32) (due : Instant), n.toNat = j.trys.toNat + i + 1 ∧
      t.addSecs? ↑(j.tryPeriod.toNat * n.toNat) = some due ∧
      ds[i]? = some (.retry n (max due (j.after (ds.take i)).runAt))
  exhausted : ∀ (i : Nat) (t : Instant), ts[i]? = some t → j.trys.toNat + i + 1 = j.tryMax.toNat →
    ds[i]? = some (.exhausted j.tryMax)
  /-- A failure uses up one attempt. -/
  counted : ∀ i ≤ ds.length, (j.after (ds.take i)).trys.toNat = j.trys.toNat + i
  steady : ∀ i, (j.after (ds.take i)).runAt ≤ (j.after (ds.take (i + 1))).runAt

namespace Backoff

variable {j : Job} {now due : Instant} {ts : List Instant} {ds : List Decision}

theorem nil (j : Job) : Backoff j [] [] where
  length_eq := (Nat.zero_min _).symm
  retried _ _ h := by simp at h
  exhausted _ _ h := by simp at h
  counted i hi := by
    obtain rfl : i = 0 := by simpa using hi
    rfl
  steady i := by simpa using Instant.le_refl _

/-- Nothing is decided behind the last attempt. -/
theorem last (hlast : j.trys.toNat + 1 = j.tryMax.toNat) :
    Backoff j (now :: ts) [.exhausted j.tryMax] where
  length_eq := by
    have hone : j.tryMax.toNat - j.trys.toNat = 1 := by omega
    rw [hone, List.length_singleton, List.length_cons]
    omega
  retried i _ _ h := by omega
  exhausted i _ _ h := by
    obtain rfl : i = 0 := by omega
    rfl
  counted i hi := by
    rw [List.length_singleton] at hi
    obtain rfl | rfl : i = 0 ∨ i = 1 := by omega
    · rfl
    · exact hlast.symm
  steady i := by
    cases i with
    | zero => exact Instant.le_refl j.runAt
    | succ i => simpa using Instant.le_refl _

/-- A failure that is followed by an attempt goes before what the record behind it goes through. -/
theorem cons {n : UInt32} (hn : n.toNat = j.trys.toNat + 1) (hleft : n.toNat < j.tryMax.toNat)
    (hdue : now.addSecs? ↑(j.tryPeriod.toNat * n.toNat) = some due)
    (h : Backoff (j.follow (.retry n (max due j.runAt))) ts ds) :
    Backoff j (now :: ts) (.retry n (max due j.runAt) :: ds) where
  length_eq := by
    have hlen : ds.length = min ts.length (j.tryMax.toNat - n.toNat) := h.length_eq
    rw [List.length_cons, List.length_cons, hlen]
    omega
  retried i t ht hi := by
    cases i with
    | zero =>
      obtain rfl : now = t := Option.some.inj ht
      exact ⟨n, due, hn, hdue, rfl⟩
    | succ i =>
      have hi' : n.toNat + i + 1 < j.tryMax.toNat := by omega
      obtain ⟨n', due', hn', hdue', hds⟩ := h.retried i t ht hi'
      have hn'' : n'.toNat = n.toNat + i + 1 := hn'
      exact ⟨n', due', by omega, hdue', hds⟩
  exhausted i t ht hi := by
    cases i with
    | zero => omega
    | succ i =>
      have hi' : n.toNat + i + 1 = j.tryMax.toNat := by omega
      exact h.exhausted i t ht hi'
  counted i hi := by
    cases i with
    | zero => rfl
    | succ i =>
      have hc : _ = n.toNat + i := h.counted i (by simpa using hi)
      rw [List.take_succ_cons, after_cons, hc]
      omega
  steady i := by
    cases i with
    | zero => exact Instant.le_max_right due j.runAt
    | succ i => exact h.steady i

/-- All attempts that are left are gone through if there are failures enough. -/
theorem ends (h : Backoff j ts ds) (hj : j.trys.toNat < j.tryMax.toNat)
    (hts : j.tryMax.toNat - j.trys.toNat ≤ ts.length) :
    ∃ retries : List Decision, ds = retries ++ [.exhausted j.tryMax] ∧
      retries.length = j.tryMax.toNat - j.trys.toNat - 1 ∧
      ∀ (i : Nat) (d : Decision), retries[i]? = some d →
        ∃ (n : UInt32) (runAt : Instant), d = .retry n runAt ∧ n.toNat = j.trys.toNat + i + 1 := by
  have hlen : ds.length = j.tryMax.toNat - j.trys.toNat := by
    rw [h.length_eq, Nat.min_eq_right hts]
  have hne : ds ≠ [] := by
    rintro rfl
    rw [List.length_nil] at hlen
    omega
  have hlastTime : ts[ds.length - 1]? = some (ts.get ⟨ds.length - 1, by omega⟩) :=
    List.getElem?_eq_getElem _
  have hlast : ds.getLast hne = .exhausted j.tryMax := by
    apply Option.some.inj
    rw [← List.getLast?_eq_some_getLast hne, List.getLast?_eq_getElem?]
    exact h.exhausted _ _ hlastTime (by omega)
  refine ⟨ds.dropLast, ?_, ?_, ?_⟩
  · rw [← hlast, List.dropLast_concat_getLast hne]
  · rw [List.length_dropLast, hlen]
  · intro i d hd
    obtain ⟨hi, -⟩ := List.getElem?_eq_some_iff.mp hd
    rw [List.length_dropLast] at hi
    have htime : ts[i]? = some (ts.get ⟨i, by omega⟩) := List.getElem?_eq_getElem _
    obtain ⟨n, due, hn, -, hds⟩ := h.retried i _ htime (by omega)
    rw [List.getElem?_dropLast, if_pos (by omega), hds] at hd
    exact ⟨n, _, (Option.some.inj hd).symm, hn⟩

/-- The counter does not pass the number of attempts. -/
theorem within (h : Backoff j ts ds) (hj : j.trys.toNat < j.tryMax.toNat) (i : Nat) :
    (j.after (ds.take i)).trys.toNat ≤ j.tryMax.toNat := by
  have hlen := h.length_eq
  rcases Nat.le_total i ds.length with hi | hi
  · rw [h.counted i hi]
    omega
  · have hall := h.counted ds.length (Nat.le_refl _)
    rw [List.take_length] at hall
    rw [List.take_of_length_le hi, hall]
    omega

end Backoff

/-- The decisions on failures exist, whatever the times, and are a backoff; they lead to the record
that they are followed to. -/
theorem failures_backoff (j : Job) (ts : List Instant) (hj : j.trys.toNat < j.tryMax.toNat)
    (hts : j.CanWait ts) :
    ∃ ds, j.failures ts = some (ds, j.after ds) ∧ Backoff j ts ds ∧
      (∀ i, (j.after (ds.take i)).trys.toNat ≤ j.tryMax.toNat) ∧
      (j.tryMax.toNat - j.trys.toNat ≤ ts.length →
        ∃ retries : List Decision, ds = retries ++ [.exhausted j.tryMax] ∧
          retries.length = j.tryMax.toNat - j.trys.toNat - 1 ∧
          ∀ (i : Nat) (d : Decision), retries[i]? = some d →
            ∃ (n : UInt32) (runAt : Instant), d = .retry n runAt ∧
              n.toNat = j.trys.toNat + i + 1) := by
  suffices hb : ∃ ds, j.failures ts = some (ds, j.after ds) ∧ Backoff j ts ds by
    obtain ⟨ds, hds, h⟩ := hb
    exact ⟨ds, hds, h, h.within hj, h.ends hj⟩
  -- on the failures, for every record that has an attempt left
  induction ts generalizing j with
  | nil => exact ⟨[], rfl, .nil j⟩
  | cons now ts ih =>
    rcases Nat.lt_or_ge (j.trys.toNat + 1) j.tryMax.toNat with hleft | hnone
    · have hn : j.nextAttempt.toNat = j.trys.toNat + 1 := toNat_nextAttempt_of_lt hj
      obtain ⟨due, hdue⟩ := Option.isSome_iff_exists.mp (hts 0 now rfl hleft)
      have hstep := onFailure_of_left hleft rfl hdue
      rw [← hn] at hleft
      have hlater : (j.follow (.retry j.nextAttempt (max due j.runAt))).CanWait ts := by
        intro i t ht hi
        have hi' : j.nextAttempt.toNat + i + 1 < j.tryMax.toNat := hi
        have h := hts (i + 1) t ht (by omega)
        have hshift : j.trys.toNat + (i + 1) + 1 = j.nextAttempt.toNat + i + 1 := by omega
        rwa [hshift] at h
      obtain ⟨ds, hds, h⟩ := ih _ hleft hlater
      refine ⟨.retry j.nextAttempt (max due j.runAt) :: ds, ?_, .cons hn hleft (hn ▸ hdue) h⟩
      simp only [failures, hstep, hds, Option.bind_eq_bind, Option.bind_some, after_cons]
    · have hlast : j.trys.toNat + 1 = j.tryMax.toNat := by omega
      refine ⟨[.exhausted j.tryMax], ?_, .last hlast⟩
      simp only [failures, onFailure_of_last hlast, Option.bind_eq_bind, Option.bind_some]
      rfl

/-- A job that is tried three times, ten minutes and twenty minutes apart. -/
def triedThrice : Job := { (default : Job) with tryPeriod := 600, tryMax := 3 }

/-- Between the first failure and the second, the clock is set back by an hour. -/
def setBack : List Instant := [(Instant.epoch.addSecs? 3600).getD .epoch, .epoch, .epoch]

theorem decided_by_a_clock_set_back : ∃ ds,
    triedThrice.failures setBack = some (ds, triedThrice.after ds) ∧
      Backoff triedThrice setBack ds ∧ ds.map Decision.attempt = [1, 2, 3] := by
  have hwait : triedThrice.CanWait setBack := by
    intro i t ht hi
    obtain rfl | rfl : i = 0 ∨ i = 1 := by
      change 0 + i + 1 < 3 at hi
      omega
    · obtain rfl := Option.some.inj ht
      decide
    · obtain rfl := Option.some.inj ht
      decide
  obtain ⟨ds, hds, h, -, -⟩ := failures_backoff triedThrice setBack (by decide) hwait
  have hnumbers : (triedThrice.failures setBack).map (fun x => x.1.map Decision.attempt) =
      some [1, 2, 3] := rfl
  rw [hds] at hnumbers
  exact ⟨ds, hds, h, Option.some.inj hnumbers⟩

end JobEngine
