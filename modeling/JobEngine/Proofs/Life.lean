import JobEngine.Proofs.Visit

/-!
# The life of a job

A job is created and then run again and again, by workers that may differ, with nothing else going
on.  Attempt 1, 2, … is made until one succeeds or none is left; behind that the job is left alone.

* `of_create`         what a job is that was created;
* `lastAttempt`       the first attempt that succeeds, or the last that is allowed;
* `Job.afterCalls`    the record behind some calls, and `Job.behind_afterCalls` behind one more;
* `Job.Lives`, `Job.Stands`   what one call makes of the job, and where the calls before it left it;
* `whole_life_of_a_job`
-/

namespace JobEngine

open Memory Program Run

/-! ## a new job -/

theorem of_create {c : Controller} {request : NewJob} {w : Calm} {n : Nat} {m m' : Memory}
    {hs : List Heard} {j : Job} (h : (c.create request).Goes w n m hs (.ok j) m') :
    request.toJob w.fresh (w.clock (n + 1)) = .ok j ∧ m.rows.get? j.id = none ∧
      m' = { m with rows := m.rows.set j.id j } := by
  unfold Controller.create Goes at h
  cases hk : c.kinds.contains request.action with
  | false =>
    rw [hk] at h
    obtain ⟨_, he, _⟩ := Runs.of_done h
    simp at he
  | true =>
    rw [hk] at h
    obtain ⟨_, _, _, hfresh, _, h⟩ := Runs.of_call h
    obtain ⟨rfl, rfl⟩ := Prod.mk.inj (Option.some.inj hfresh)
    obtain ⟨_, _, _, hclock, _, h⟩ := Runs.of_call h
    obtain ⟨rfl, rfl⟩ := Prod.mk.inj (Option.some.inj hclock)
    change Run.Goes w (n + 1 + 1) m
      (Run.rule (request.toJob w.fresh (w.clock (n + 1))) >>= _) _ _ _ at h
    cases hj : request.toJob w.fresh (w.clock (n + 1)) with
    | error e =>
      rw [hj] at h
      obtain ⟨_, he, _⟩ := Runs.of_done h
      simp at he
    | ok j' =>
      rw [hj] at h
      obtain ⟨a, m₁, _, hinsert, _, h⟩ := Runs.of_call h
      change some ((m.insert j').1, (m.insert j').2) = some (a, m₁) at hinsert
      obtain ⟨rfl, rfl⟩ := Prod.mk.inj (Option.some.inj hinsert)
      rcases insert_cases m j' with ⟨_, e⟩ | ⟨hnew, e⟩ <;> rw [e] at h
      · obtain ⟨_, he, _⟩ := Runs.of_done h
        simp at he
      · -- nothing but the log follows
        obtain ⟨_, _, _, hlog, _, h⟩ := Runs.of_call h
        obtain ⟨-, rfl⟩ := Prod.mk.inj (Option.some.inj hlog)
        obtain ⟨_, he, rfl⟩ := Runs.of_done h
        obtain rfl := Except.ok.inj he
        exact ⟨rfl, hnew, rfl⟩

/-! ## all calls -/

/-- The first attempt that succeeds, or the last that is allowed. -/
def lastAttempt (ends : Nat → Except ActionError Json) (max : Nat) : Nat :=
  ((List.range' 1 (max - 1)).find? fun i => (ends i).isOk).getD max

theorem lastAttempt_cases (ends : Nat → Except ActionError Json) (max : Nat) :
    (lastAttempt ends max = max ∨
      (1 ≤ lastAttempt ends max ∧ lastAttempt ends max < max) ∧
        ∃ a, ends (lastAttempt ends max) = .ok a) ∧
    ∀ i, 1 ≤ i → i < lastAttempt ends max → ∃ e, ends i = .error e := by
  have hbad {i : Nat} (h : (!(ends i).isOk) = true) : ∃ e, ends i = .error e := by
    cases hi : ends i with
    | error e => exact ⟨e, rfl⟩
    | ok a => simp [hi, Except.isOk, Except.toBool] at h
  unfold lastAttempt
  cases h : (List.range' 1 (max - 1)).find? fun i => (ends i).isOk with
  | none =>
    refine ⟨Or.inl rfl, fun i hi hlt => ?_⟩
    change i < max at hlt
    exact hbad (List.find?_range'_eq_none.mp h i hi (by omega))
  | some n =>
    obtain ⟨hok, hmem, hfirst⟩ := List.find?_range'_eq_some.mp h
    refine ⟨Or.inr ⟨?_, ?_⟩, fun i hi hlt => hbad (hfirst i hi hlt)⟩
    · show 1 ≤ n ∧ n < max
      have := List.mem_range'_1.mp hmem
      omega
    · show ∃ a, ends n = .ok a
      cases hn : ends n with
      | ok a => exact ⟨a, rfl⟩
      | error e => simp [hn, Except.isOk, Except.toBool] at hok

section
variable {ends : Nat → Except ActionError Json} {max i : Nat}

theorem lastAttempt_le (ends : Nat → Except ActionError Json) (max : Nat) :
    lastAttempt ends max ≤ max := by
  rcases (lastAttempt_cases ends max).1 with h | ⟨h, _⟩ <;> omega

theorem lastAttempt_pos (ends : Nat → Except ActionError Json) (h : 0 < max) :
    0 < lastAttempt ends max := by
  rcases (lastAttempt_cases ends max).1 with h | ⟨h, _⟩ <;> omega

theorem lastAttempt_of_ok {a : Json} (hi : i < lastAttempt ends max)
    (ha : ends (i + 1) = .ok a) : lastAttempt ends max = i + 1 := by
  refine Nat.le_antisymm (Nat.le_of_not_lt fun h => ?_) hi
  obtain ⟨e, he⟩ := (lastAttempt_cases ends max).2 (i + 1) (by omega) h
  simp [ha] at he

theorem lastAttempt_of_error {e : ActionError} (hi : i < lastAttempt ends max)
    (he : ends (i + 1) = .error e) :
    i + 1 < lastAttempt ends max ∨ lastAttempt ends max = i + 1 ∧ i + 1 = max := by
  rcases Nat.lt_or_eq_of_le (Nat.succ_le_of_lt hi) with h | h
  · exact Or.inl h
  · rcases (lastAttempt_cases ends max).1 with hmax | ⟨_, a, ha⟩
    · exact Or.inr ⟨h.symm, h.trans hmax⟩
    · rw [← h] at ha
      simp [he] at ha

end

/-- The record behind `i` calls, but for the times. -/
def Job.afterCalls (j : Job) (ends : Nat → Except ActionError Json) (i : Nat) : Job :=
  if i < lastAttempt ends j.tryMax.toNat then { j with trys := .ofNat i }
  else j.settled (.ofNat (lastAttempt ends j.tryMax.toNat))
    (ends (lastAttempt ends j.tryMax.toNat))

/-- What follows a failed attempt `n` is representable, whenever the failure comes. -/
def Job.Fits (j : Job) (n : UInt32) (w : Calm) : Prop :=
  ∃ secs, j.retryDelay? n = some secs ∧ ∀ k, ((w.clock k).addSecs? secs).isSome

namespace Job

variable {j r : Job} {ends : Nat → Except ActionError Json} {i : Nat}

theorem id_afterCalls (j : Job) (ends : Nat → Except ActionError Json) (i : Nat) :
    (j.afterCalls ends i).id = j.id := by
  unfold afterCalls
  split
  · rfl
  · cases ends _ <;> rfl

theorem toNat_ofNat_of_le (h : i ≤ j.tryMax.toNat) : (UInt32.ofNat i).toNat = i :=
  UInt32.toNat_ofNat_of_lt' (Nat.lt_of_le_of_lt h j.tryMax.toNat_lt)

/-- The number of the attempt that follows `i` others, and whether it is the last. -/
theorem attempt_after (hi : i < j.tryMax.toNat)
    (hr : SameButTimes { j with trys := .ofNat i } r) :
    r.nextAttempt = .ofNat (i + 1) ∧ r.isLastChance = decide (i + 1 = j.tryMax.toNat) := by
  obtain ⟨_, _, rfl⟩ := hr
  have htrys : (UInt32.ofNat i).toNat = i := toNat_ofNat_of_le (Nat.le_of_lt hi)
  constructor
  · apply UInt32.toNat_inj.mp
    rw [toNat_nextAttempt_of_lt (htrys.symm ▸ hi), toNat_ofNat_of_le hi]
    exact congrArg (· + 1) htrys
  · show decide (j.tryMax.toNat ≤ (UInt32.ofNat i).toNat + 1) = _
    rw [htrys]
    exact decide_eq_decide.mpr (by omega)

theorem behind_afterCalls (hpending : j.status = .pending)
    (hi : i < lastAttempt ends j.tryMax.toNat) :
    ({ j with trys := .ofNat i } : Job).behind (ends (i + 1)) = j.afterCalls ends (i + 1) := by
  obtain ⟨hnext, hlast⟩ := attempt_after (r := { j with trys := .ofNat i })
    (Nat.lt_of_lt_of_le hi (lastAttempt_le ends _)) ⟨_, _, rfl⟩
  unfold afterCalls
  cases he : ends (i + 1) with
  | ok a =>
    -- no attempt follows a success
    have hn := lastAttempt_of_ok hi he
    rw [if_neg (by omega), hn, he]
    simp only [behind, settled, hnext]
  | error e =>
    rcases lastAttempt_of_error hi he with hn | ⟨hn, hmax⟩
    · have hmore : ¬ i + 1 = j.tryMax.toNat := by
        have := lastAttempt_le ends j.tryMax.toNat
        omega
      rw [if_pos hn]
      simp only [behind, hnext, hlast, decide_eq_false hmore]
      rw [hpending]
      rfl
    · rw [if_neg (by omega), hn, he]
      simp only [behind, settled, hnext, hlast, decide_eq_true hmax, if_pos]

theorem Fits.onFailure_isSome {w : Calm} (h : r.isLastChance = false → r.Fits r.nextAttempt w)
    (k : Nat) : (r.onFailure (w.clock k)).isSome := by
  unfold onFailure
  cases hlast : r.isLastChance with
  | true => rfl
  | false =>
    obtain ⟨secs, hsecs, hdate⟩ := h hlast
    obtain ⟨t, ht⟩ := Option.isSome_iff_exists.mp (hdate k)
    simp [hsecs, ht]

/-- What call number `i + 1` makes of a job that gets `n` attempts. -/
structure Lives (j : Job) (x : Visit) (n i : Nat) (m : Memory) (hs : List Heard) (m' : Memory) :
    Prop where
  runs : (x.unit j.id).Runs x.calm 0 m hs (.ok ()) m'
  attempts : i < n → ∃ v, SameButTimes { j with status := .running, trys := .ofNat i } v ∧
    x.Attempts v (.ofNat (i + 1)) (i + 1 = j.tryMax.toNat) hs m'
  idle : n ≤ i → Mute hs ∧ m'.rows = m.rows
  others : ∀ id, id ≠ j.id → m'.rows.get? id = m.rows.get? id

/-- Where the job stands behind `i` calls. -/
structure Stands (j : Job) (ends : Nat → Except ActionError Json) (i : Nat) (m : Memory) :
    Prop where
  rest : ∃ k, m = rest m.rows k
  row : ∃ r, m.rows.get? j.id = some r ∧ (j.afterCalls ends i).SameButTimes r

variable {x : Visit} {m : Memory}

theorem Stands.attempts (h : j.Stands ends i m) (hpending : j.status = .pending)
    (hi : i < lastAttempt ends j.tryMax.toNat) (hend : ends (i + 1) = x.ending j.action)
    (hfits : i + 1 < lastAttempt ends j.tryMax.toNat → j.Fits (.ofNat (i + 1)) x.calm) :
    ∃ hs m', j.Lives x (lastAttempt ends j.tryMax.toNat) i m hs m' ∧ j.Stands ends (i + 1) m' := by
  obtain ⟨⟨k, hm⟩, r, hr, hsame⟩ := h
  unfold afterCalls at hsame
  rw [if_pos hi] at hsame
  obtain ⟨hnext, hlast⟩ :=
    attempt_after (Nat.lt_of_lt_of_le hi (lastAttempt_le ends _)) hsame
  obtain ⟨hid, haction, hstatus⟩ : r.id = j.id ∧ r.action = j.action ∧ r.status = .pending := by
    obtain ⟨_, _, rfl⟩ := hsame
    exact ⟨rfl, rfl, hpending⟩
  have hclaimed (t : Instant) : SameButTimes { j with status := .running, trys := .ofNat i }
      { r with status := .running, updated := t } := by
    obtain ⟨_, _, rfl⟩ := hsame
    exact ⟨_, _, rfl⟩
  -- a date is needed only where another attempt follows
  have hdecides {e : ActionError} (he : x.ending r.action = .error e) (k : Nat) :
      (r.onFailure (x.calm.clock k)).isSome := by
    refine Fits.onFailure_isSome (fun hmore => ?_) k
    rw [hnext]
    rw [haction] at he
    rcases lastAttempt_of_error hi (hend.trans he) with h | ⟨_, hmax⟩
    · obtain ⟨_, _, rfl⟩ := hsame
      exact hfits h
    · simp [hlast, hmax] at hmore
  obtain ⟨hs, j', rows', t, hruns, hattempts, hj', hrow, hothers⟩ :=
    x.attempts (k := k) (hid.symm ▸ hr) hstatus fun e he => hdecides he
  rw [hnext, hlast] at hattempts
  rw [← hm, hid] at hruns
  rw [hid] at hrow hothers
  refine ⟨hs, _, ⟨hruns, fun _ => ⟨_, hclaimed t, hattempts⟩, fun h => absurd hi (by omega),
    hothers⟩, ⟨_, rfl⟩, j', hrow, ?_⟩
  rw [← behind_afterCalls hpending hi, hend]
  rw [haction] at hj'
  exact (SameButTimes.behind hsame _).trans hj'

theorem Stands.rests (h : j.Stands ends i m) (x : Visit)
    (hi : lastAttempt ends j.tryMax.toNat ≤ i) :
    ∃ hs m', j.Lives x (lastAttempt ends j.tryMax.toNat) i m hs m' ∧ j.Stands ends (i + 1) m' := by
  obtain ⟨⟨k, hm⟩, r, hr, hsame⟩ := h
  have hnext : j.afterCalls ends (i + 1) = j.afterCalls ends i := by
    unfold afterCalls
    rw [if_neg (by omega), if_neg (by omega)]
  have hid : r.id = j.id := by
    obtain ⟨_, _, rfl⟩ := hsame
    exact id_afterCalls j ends i
  have hno : r.status.executable = false := by
    obtain ⟨_, _, rfl⟩ := hsame
    unfold afterCalls
    rw [if_neg (by omega)]
    cases ends (lastAttempt ends j.tryMax.toNat) <;> rfl
  rw [← hid] at hr
  obtain ⟨hs, hmute, hruns⟩ := x.rests (k := k) hr hno
  rw [← hm, hid] at hruns
  exact ⟨hs, _, ⟨hruns, fun h => absurd h (by omega), fun _ => ⟨hmute, rfl⟩, fun _ _ => rfl⟩,
    ⟨k + 1, rfl⟩, r, hid ▸ hr, hnext ▸ hsame⟩

end Job

/-- The store behind the first `i` calls. -/
def storeAfter (turns : Nat → Visit) (id : JobId) (m : Memory) : Nat → Option Memory
  | 0 => some m
  | i + 1 =>
    (storeAfter turns id m i).bind fun m =>
      (((turns (i + 1)).unit id).alone (turns (i + 1)).calm 0 m).map Course.memory

theorem storeAfter_succ {turns : Nat → Visit} {id : JobId} {m m₀ m' : Memory} {i : Nat}
    {hs : List Heard} {r : Except JobError Unit} (hm : storeAfter turns id m₀ i = some m)
    (h : ((turns (i + 1)).unit id).Runs (turns (i + 1)).calm 0 m hs r m') :
    storeAfter turns id m₀ (i + 1) = some m' := by
  show (storeAfter turns id m₀ i).bind _ = _
  rw [hm]
  exact congrArg (Option.map Course.memory) h

/-- The number of attempts at a job in a row of calls. -/
def Job.attemptsIn (j : Job) (turns : Nat → Visit) : Nat :=
  lastAttempt (fun i => (turns i).ending j.action) j.tryMax.toNat

/-- **The whole life of a job.**  A job that was created is run again and again, with nothing else
going on.  All calls end well.  The first of them make attempts 1, 2, … up to the first that
succeeds, or the last that is allowed; the others do nothing.  In each attempt all who hear of its
number and of whether it is the last hear the same, and the job is left as the last one ended. -/
theorem whole_life_of_a_job {c : Controller} {request : NewJob} {w : Calm} {m m₀ : Memory}
    {hs₀ : List Heard} {j : Job} {turns : Nat → Visit} (hm : m.Quiet)
    (hcreate : (c.create request).Goes w 0 m hs₀ (.ok j) m₀)
    (hfits : ∀ i, 1 ≤ i → i < j.attemptsIn turns → j.Fits (.ofNat i) (turns i).calm) :
    ∀ i, ∃ m hs m', storeAfter turns j.id m₀ i = some m ∧
      storeAfter turns j.id m₀ (i + 1) = some m' ∧
      j.Lives (turns (i + 1)) (j.attemptsIn turns) i m hs m' ∧
      (j.attemptsIn turns ≤ i → ∃ runAt updated, m.rows.get? j.id = some
        { j.settled (.ofNat (j.attemptsIn turns))
            ((turns (j.attemptsIn turns)).ending j.action) with runAt, updated }) := by
  let ends (i : Nat) : Except ActionError Json := (turns i).ending j.action
  obtain ⟨hj, _, rfl⟩ := of_create hcreate
  obtain ⟨_, hpending, htrys, hmax⟩ := NewJob.of_toJob_eq_ok hj
  have hstep (i : Nat) {m : Memory} (h : j.Stands ends i m) : ∃ hs m',
      j.Lives (turns (i + 1)) (j.attemptsIn turns) i m hs m' ∧ j.Stands ends (i + 1) m' := by
    rcases Nat.lt_or_ge i (j.attemptsIn turns) with hi | hi
    · exact h.attempts hpending hi rfl (hfits (i + 1) (Nat.le_add_left 1 i))
    · exact h.rests _ hi
  have hstart : j.Stands ends 0 { m with rows := m.rows.set j.id j } := by
    refine ⟨⟨m.nextSession, ?_⟩, j, (Table.get?_set ..).trans (if_pos rfl), j.runAt, j.updated, ?_⟩
    · rw [hm.eq_rest]
      rfl
    · unfold Job.afterCalls
      rw [if_pos (lastAttempt_pos ends hmax), show UInt32.ofNat 0 = j.trys from htrys.symm]
  -- where the job stands is carried from call to call
  have hstands (i : Nat) : ∃ m',
      storeAfter turns j.id { m with rows := m.rows.set j.id j } i = some m' ∧
        j.Stands ends i m' := by
    induction i with
    | zero => exact ⟨_, rfl, hstart⟩
    | succ i ih =>
      obtain ⟨m', hm', h⟩ := ih
      obtain ⟨hs, m'', hlives, h'⟩ := hstep i h
      exact ⟨m'', storeAfter_succ hm' hlives.runs, h'⟩
  intro i
  obtain ⟨m', hm', h⟩ := hstands i
  obtain ⟨hs, m'', hlives, _⟩ := hstep i h
  refine ⟨m', hs, m'', hm', storeAfter_succ hm' hlives.runs, hlives, fun hi => ?_⟩
  obtain ⟨r, hr, runAt, updated, rfl⟩ := h.row
  have hafter : j.afterCalls ends i = j.settled (.ofNat (j.attemptsIn turns))
      (ends (j.attemptsIn turns)) := if_neg (Nat.not_lt.mpr hi)
  rw [hafter] at hr
  exact ⟨runAt, updated, hr⟩

/-- The action fails with the first worker, and succeeds with the next. -/
def failsOnce (i : Nat) : Visit where
  controller := ⟨["echo"]⟩
  tag := "worker"
  deadline := 1000
  calm :=
    { clock := fun _ => .epoch, fresh := ⟨0⟩,
      action := some (if i = 1 then .error (.failed "not yet") else .ok .null) }

theorem second_attempt_succeeds : ∃ hs j m₀,
    (Controller.create ⟨["echo"]⟩ { action := "echo", params := .null }).Goes
      (failsOnce 0).calm 0 {} hs (.ok j) m₀ ∧ j.attemptsIn failsOnce = 2 ∧
    ∃ m runAt updated, storeAfter failsOnce j.id m₀ 2 = some m ∧
      m.rows.get? j.id = some { j.settled 2 (.ok .null) with runAt, updated } := by
  obtain ⟨hs, j, m₀, hcreate, hattempts, hperiod, hend⟩ : ∃ hs j m₀,
      (Controller.create ⟨["echo"]⟩ { action := "echo", params := .null }).Goes
        (failsOnce 0).calm 0 {} hs (.ok j) m₀ ∧ j.attemptsIn failsOnce = 2 ∧
      j.retryDelay? 1 = some 600 ∧ (failsOnce 2).ending j.action = .ok .null :=
    ⟨_, _, _, rfl, rfl, rfl, rfl⟩
  have hfits (i : Nat) (hi : 1 ≤ i) (hlt : i < j.attemptsIn failsOnce) :
      j.Fits (.ofNat i) (failsOnce i).calm := by
    obtain rfl : i = 1 := by omega
    exact ⟨600, hperiod, fun k => (by decide : (Instant.epoch.addSecs? 600).isSome)⟩
  obtain ⟨m, _, _, hm, _, _, hrow⟩ := whole_life_of_a_job quiet_empty hcreate hfits 2
  obtain ⟨runAt, updated, hr⟩ := hrow (Nat.le_of_eq hattempts)
  rw [hattempts, hend] at hr
  exact ⟨hs, j, m₀, hcreate, hattempts, m, runAt, updated, hm, hr⟩

end JobEngine
