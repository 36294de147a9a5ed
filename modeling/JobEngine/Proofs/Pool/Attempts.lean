import JobEngine.Proofs.Pool.Exclusion

/-!
# The numbers of attempts

Where no job is put back, the runs of a job's action are numbered 1, 2, 3 and so on.  The number of
the next one is one more than the attempts that the stored row has used up; a unit that has started
an attempt is the only one to execute the job, and when it records the end of the attempt the row
has caught up.

* `Pool.attempts`      the numbers of the runs of a job's action that were started;
* `Pool.outcomes`      how many attempts were recorded as ended;
* `Stage.Early`        a unit has not started its attempt yet;
* `Pool.Counted`       the numbers fit the row and the unit that executes the job;
* `Pool.Alike`         the units of the job all know its action, or none does;
* `Reachable.counted`   they always do;
* `executions_exclude_each_other`   one unit at a time executes a job, and numbers its attempts;
* `first_run_is_the_second_attempt`   a number is left out where a worker does not know the action.
-/

namespace JobEngine

/-- The number of the attempt at a job that a deed starts. -/
def Deed.attempt? (id : JobId) (d : Deed) : Option Nat :=
  match d.asks with
  | some (.invoke i) => if i.job = id then some i.attempt.toNat else none
  | _ => none

theorem Deed.attempt?_eq_some {d : Deed} {id : JobId} {n : Nat} (h : d.attempt? id = some n) :
    ∃ i, d.Invokes i ∧ i.job = id ∧ i.attempt.toNat = n := by
  unfold Deed.attempt? at h
  split at h
  · next i hi =>
    split at h
    · next hid => exact ⟨i, hi, hid, Option.some.inj h⟩
    · simp at h
  · simp at h

theorem Deed.attempt?_eq_none {d : Deed} {id : JobId} (h : ∀ i, ¬ d.Invokes i) :
    d.attempt? id = none := by
  cases hn : d.attempt? id with
  | none => rfl
  | some n =>
    obtain ⟨i, hi, _⟩ := attempt?_eq_some hn
    exact absurd hi (h i)

/-! ## before the attempt -/

/-- A unit that waits for the answer to `q` has claimed its job, and has not started its attempt. -/
def Stage.Early (st : Stage) (q : Option EngineCall) : Prop :=
  st = .claimed ∨ ∃ v, st = .loaded v ∧ ∀ i, q ≠ some (.invoke i)

section
variable {t : Task} {st st' : Stage} {h : Heard} {q q' : Option EngineCall}

theorem Stage.Early.mono (h : st.Early q) (hq : ¬ ∃ i, q' = some (.invoke i)) : st.Early q' := by
  rcases h with h | ⟨v, h, _⟩
  · exact Or.inl h
  · exact Or.inr ⟨v, h, fun i hi => hq ⟨i, hi⟩⟩

theorem May.knows {v : Job} {i : Invocation} (h : May t st (.invoke i)) (hst : st = .loaded v) :
    t.knows v.action := by
  subst hst
  cases h with
  | invoke _ hk => exact hk

theorem Moves.loaded {v : Job} (hmove : Moves t st h (.loaded v)) : st.Early (some h.1) := by
  cases hmove with
  | stays hno => exact Or.inr ⟨v, rfl, fun i hi => hno i (Option.some.inj hi)⟩
  | loads => exact Or.inl rfl

theorem Moves.early_back (hmove : Moves t st h st') (hearly : st'.Early q) :
    st.Early (some h.1) ∨ ∃ s j c, st = .marked s j c ∧ h = ⟨.store (.commit s), .ok ()⟩ := by
  rcases hearly with rfl | ⟨v, rfl, _⟩
  · cases hmove with
    | stays => exact Or.inl (Or.inl rfl)
    | claims => exact Or.inr ⟨_, _, _, rfl, rfl⟩
  · exact Or.inl hmove.loaded

theorem Moves.late_back (hmove : Moves t st h st') (hex : st'.Executing)
    (hlate : ¬ st'.Early q) :
    (∃ i, q = some (.invoke i)) ∨ (st.Executing ∧ ¬ st.Early (some h.1)) ∨
    ∃ v, st = .loaded v ∧ h.1 = .store .begin ∧ t.knows v.action = false := by
  by_cases hq : ∃ i, q = some (.invoke i)
  · exact Or.inl hq
  refine Or.inr ?_
  cases hmove with
  | stays => exact Or.inl ⟨hex, fun he => hlate (he.mono hq)⟩
  | claims => exact absurd (Or.inl rfl) hlate
  | loads => exact absurd (Or.inr ⟨_, rfl, fun i hi => hq ⟨i, hi⟩⟩) hlate
  | invokes =>
    refine Or.inl ⟨rfl, ?_⟩
    rintro (h | ⟨_, _, hno⟩)
    · simp at h
    · exact hno _ rfl
  | reenters | settles => exact Or.inl ⟨rfl, by rintro (h | ⟨_, h, _⟩) <;> simp at h⟩
  | givesUp hk => exact Or.inr ⟨_, rfl, rfl, hk⟩
  | _ => exact absurd hex Bool.false_ne_true

end

namespace Pool

/-- The numbers of the runs of a job's action, in the order in which they started. -/
def attempts (P : Pool) (id : JobId) : List Nat := P.past.filterMap (Deed.attempt? id)

/-- How many attempts at a job were recorded as ended. -/
def outcomes (P : Pool) (id : JobId) : Nat := P.past.countP (Deed.ends id)

/-- Every unit that is to run the job knows its action. -/
def Knows (P : Pool) (id : JobId) : Prop :=
  ∀ w ∈ P.units, ∀ r, w.task.runs = some id → P.memory.rows.get? id = some r →
    w.task.knows r.action

/-- The units that are to run the job all know its action or none does, as units of one engine. -/
def Alike (P : Pool) (id : JobId) : Prop :=
  ∀ w ∈ P.units, ∀ w' ∈ P.units, ∀ r, w.task.runs = some id → w'.task.runs = some id →
    P.memory.rows.get? id = some r → w.task.knows r.action = w'.task.knows r.action

/-- Some unit that is to run the job knows its action. -/
def Known (P : Pool) (id : JobId) : Prop :=
  ∃ w ∈ P.units, ∃ r, w.task.runs = some id ∧ P.memory.rows.get? id = some r ∧
    w.task.knows r.action

/-- No number is above `n`, and none is left out if every unit knows the action. -/
structure Upto (P : Pool) (id : JobId) (n : Nat) : Prop where
  le {a : Nat} : a ∈ P.attempts id → a ≤ n
  all : P.Knows id → P.attempts id = List.range' 1 n

/-- A unit waits between its claim of the job and its attempt. -/
structure Before (P : Pool) (u : Nat) (id : JobId) : Prop where
  ex : P.Executes u id
  early : ∃ w p, P.At u w p ∧ (P.stage u w.task).Early p.question

/-- The numbers of a job's attempts fit its row and the unit that executes it. -/
structure Counted (P : Pool) (id : JobId) : Prop where
  absent : P.memory.rows.get? id = none → P.attempts id = [] ∧ P.outcomes id = 0
  used {r : Job} : P.memory.rows.get? id = some r → r.trys.toNat = P.outcomes id
  room {r : Job} : P.memory.rows.get? id = some r → r.status = .pending ∨ r.status = .running →
    r.trys.toNat < r.tryMax.toNat
  ascending : (P.attempts id).Pairwise (· < ·) ∧ ∀ n ∈ P.attempts id, 1 ≤ n
  known : P.Knows id → ∃ n, P.attempts id = List.range' 1 n
  pending {r : Job} : P.memory.rows.get? id = some r → r.status = .pending →
    P.Upto id (P.outcomes id)
  early {u : Nat} : P.Before u id → P.Upto id (P.outcomes id)
  late {u : Nat} : P.Executes u id → ¬ P.Before u id → P.Upto id (P.outcomes id + 1)

variable {P P' : Pool} {d : Deed} {u : Nat} {id : JobId} {n : Nat}

theorem Known.knows (h : P.Known id) (halike : P.Alike id) : P.Knows id := by
  intro w' hw' r' hruns' hr'
  obtain ⟨w, hw, r, hruns, hr, hk⟩ := h
  obtain rfl := Option.some.inj (hr.symm.trans hr')
  exact halike w hw w' hw' r hruns hruns' hr ▸ hk

theorem attempts_happens (hd : P.Happens d P') (id : JobId) :
    P'.attempts id = P.attempts id ++ (d.attempt? id).toList := by
  unfold attempts
  rw [hd.past_eq, List.filterMap_append]
  cases h : d.attempt? id <;> simp [h]

theorem attempts_of_none (hd : P.Happens d P') (hnone : d.attempt? id = none) :
    P'.attempts id = P.attempts id := by
  rw [attempts_happens hd, hnone]
  exact List.append_nil _

theorem outcomes_happens (hd : P.Happens d P') (id : JobId) :
    P'.outcomes id = P.outcomes id + if d.ends id then 1 else 0 := by
  unfold outcomes
  rw [hd.past_eq, List.countP_append, List.countP_singleton]

theorem outcomes_of_none (hd : P.Happens d P') (hnone : d.files id = none) :
    P'.outcomes id = P.outcomes id := by
  rw [outcomes_happens hd]
  simp [Deed.ends, hnone]

theorem Upto.of_eq (h : P.Upto id n) (hL : P'.attempts id = P.attempts id)
    (hK : P'.Knows id → P.Knows id) : P'.Upto id n :=
  ⟨fun ha => h.le (hL ▸ ha), fun hk => hL.trans (h.all (hK hk))⟩

theorem Upto.next (h : P.Upto id n) (hL : P'.attempts id = P.attempts id ++ [n + 1])
    (hK : P'.Knows id → P.Knows id) : P'.Upto id (n + 1) := by
  refine ⟨fun ha => ?_, fun hk => ?_⟩
  · rw [hL] at ha
    rcases List.mem_append.mp ha with ha | ha
    · exact Nat.le_succ_of_le (h.le ha)
    · exact Nat.le_of_eq (List.mem_singleton.mp ha)
  · rw [hL, h.all (hK hk), List.range'_concat, Nat.one_mul, Nat.add_comm]

theorem Sound.keeps_action {r : Job} (hP : P.Sound) (hs : P.Step P')
    (hr : P.memory.rows.get? id = some r) :
    ∃ r', P'.memory.rows.get? id = some r' ∧ r'.action = r.action := by
  rcases hP.step_cases hs with ⟨d, hd⟩ | ⟨_, hrows, _⟩
  · rw [hd.memory_eq.2] at hr
    obtain ⟨r', hr', haction, _⟩ := (hP.filing hd).keeps hr
    exact ⟨r', hd.memory_eq.1 ▸ hr', haction⟩
  · exact ⟨r, hrows ▸ hr, rfl⟩

theorem knows_of_step (hP : P.Sound) (hs : P.Step P') (hK : P'.Knows id) : P.Knows id := by
  intro w hw r hruns hr
  obtain ⟨w', hw', htask⟩ := hs.units_stay hw
  obtain ⟨r', hr', haction⟩ := hP.keeps_action hs hr
  rw [← htask] at hruns ⊢
  exact haction ▸ hK w' hw' r' hruns hr'

theorem Known.of_step (h : P.Known id) (hP : P.Sound) (hs : P.Step P') : P'.Known id := by
  obtain ⟨w, hw, r, hruns, hr, hk⟩ := h
  obtain ⟨w', hw', htask⟩ := hs.units_stay hw
  obtain ⟨r', hr', haction⟩ := hP.keeps_action hs hr
  rw [← htask, ← haction] at hk
  exact ⟨w', hw', r', htask ▸ hruns, hr', hk⟩

theorem before_iff {w : WorkUnit} {p : Program Engine Upshot} (hu : P.At u w p) :
    P.Before u id ↔ P.Executes u id ∧ (P.stage u w.task).Early p.question := by
  constructor
  · rintro ⟨hex, w', p', hu', hearly⟩
    obtain rfl := hu.eq hu'
    obtain rfl : p = p' := Option.some.inj (hu.rest.symm.trans hu'.rest)
    exact ⟨hex, hearly⟩
  · rintro ⟨hex, hearly⟩
    exact ⟨hex, w, p, hu, hearly⟩

theorem before_quiet (hex : P'.Executes u id) (hpast : P'.past = P.past)
    (hat : ∀ v w p, P'.At v w p → P.At v w p ∨ P'.told v = []) :
    P'.Before u id ↔ P.Before u id := by
  obtain ⟨e, he, heu, _⟩ := hex.claimed
  obtain ⟨w, p, hu, _⟩ := live_iff.mp hex.live
  rcases hat u w p hu with hu₀ | htold
  · rw [before_iff hu, before_iff hu₀, stage_of_past hpast]
    exact and_congr_left fun _ => ⟨fun h => h.of_quiet hpast hat, fun _ => hex⟩
  · exact absurd heu (unit_ne_of_told htold he)

theorem before_other (hex : P'.Executes u id) (hd : P.Happens d P') (hne : d.unit ≠ u) :
    P'.Before u id ↔ P.Before u id := by
  obtain ⟨w, p, hu, _⟩ := live_iff.mp hex.live
  rcases hd.at_cases hu with ⟨e, _⟩ | ⟨_, hu₀, hst⟩
  · exact absurd e hne
  · rw [before_iff hu, before_iff hu₀, hst]
    refine and_congr_left fun _ => ⟨fun h => ?_, fun _ => hex⟩
    rcases h.of_happens hd with h | ⟨e, _⟩
    · exact h
    · exact absurd e hne

variable {ρ : Pool → Pool → Prop} {m : Memory} {now : Instant}

theorem counted_quiet (hC : P.Counted id) (hP : P.Sound) (hs : P.Step P') (hpast : P'.past = P.past)
    (hrows : P'.memory.rows = P.memory.rows)
    (hat : ∀ v w p, P'.At v w p → P.At v w p ∨ P'.told v = []) : P'.Counted id := by
  have hL : P'.attempts id = P.attempts id := by unfold attempts; rw [hpast]
  have hO : P'.outcomes id = P.outcomes id := by unfold outcomes; rw [hpast]
  have hK : P'.Knows id → P.Knows id := knows_of_step hP hs
  refine ⟨?_, ?_, ?_, ?_, ?_, ?_, ?_, ?_⟩
  · rw [hL, hO, hrows]; exact hC.absent
  · rw [hO, hrows]; exact hC.used
  · rw [hrows]; exact hC.room
  · rw [hL]; exact hC.ascending
  · rw [hL]; exact fun hk => hC.known (hK hk)
  · rw [hO, hrows]; exact fun hr hp => (hC.pending hr hp).of_eq hL hK
  · rw [hO]; exact fun hb => (hC.early ((before_quiet hb.ex hpast hat).mp hb)).of_eq hL hK
  · rw [hO]
    intro u hex hb
    have hb : ¬ P.Before u id := fun h => hb ((before_quiet hex hpast hat).mpr h)
    exact (hC.late (hex.of_quiet hpast hat) hb).of_eq hL hK

theorem counted_claim (hC : P.Counted id) (h : Reachable ρ (fresh m now) P) (hm : m.Quiet)
    (hd : P.Happens d P') (hnone : d.attempt? id = none) (hclaim : d.Claims id)
    (hearly : ∀ u, P'.Executes u id → P'.Before u id) : P'.Counted id := by
  have hP := h.sound hm
  have hL := attempts_of_none hd hnone
  have hK : P'.Knows id → P.Knows id := knows_of_step hP (.answer hd)
  obtain ⟨s, j, stamp, c, hst, hh, hruns, hrow, hpend, hfiles⟩ := (hP.filing hd).of_claims hclaim
  rw [← hd.memory_eq.2] at hrow
  have hrow' : P'.memory.rows.get? id = some { j with status := .running, updated := stamp } := by
    rw [hd.memory_eq.1]
    exact hfiles.after_self
  have hO : P'.outcomes id = P.outcomes id := by
    rw [outcomes_happens hd]
    simp [Deed.ends, hfiles.files]
  have hupto : P'.Upto id (P'.outcomes id) := hO ▸ (hC.pending hrow hpend).of_eq hL hK
  refine ⟨fun h => ?_, fun hr => ?_, fun hr _ => ?_, ?_, fun hk => ⟨_, hupto.all hk⟩,
    fun _ _ => hupto, fun _ => hupto, fun hex hb => absurd (hearly _ hex) hb⟩
  · rw [hrow'] at h
    simp at h
  · obtain rfl := Option.some.inj (hrow'.symm.trans hr)
    exact (hC.used hrow).trans hO.symm
  · obtain rfl := Option.some.inj (hrow'.symm.trans hr)
    have hroom := hC.room hrow (Or.inl hpend)
    exact hroom
  · rw [hL]
    exact hC.ascending

/-- The end of an attempt: the row catches up with the attempt. -/
theorem counted_conclude {v r : Job} {how : Except ActionError Json} {c : Changes}
    (hC : P.Counted id) (hx : P.Exclusive) (h : Reachable ρ (fresh m now) P) (hm : m.Quiet)
    (hd : P.Happens d P') (hnone : d.attempt? id = none) (hc : P.Concludes d id v r how c)
    (hover : ∀ u, ¬ P'.Executes u id) : P'.Counted id := by
  have hL := attempts_of_none hd hnone
  have hK : P'.Knows id → P.Knows id := knows_of_step (h.sound hm) (.answer hd)
  have hO : P'.outcomes id = P.outcomes id + 1 := by rw [outcomes_happens hd, if_pos hc.ends]
  have hex := h.executes_of_concludes hm hd hc
  -- the unit has loaded the row as it is, and has started its attempt
  obtain ⟨w, _, hu, htask, hq⟩ := hd.at_before
  obtain ⟨s, hst, hh⟩ := hc.stage
  obtain ⟨hrow, hrun⟩ := hx.row_of_view h hm hex hu (v := v) (by rw [htask, hst]; rfl)
  obtain rfl : v = r := Option.some.inj (hrow.symm.trans (hd.memory_eq.2 ▸ hc.row))
  have hbefore : ¬ P.Before d.unit id := by
    rw [before_iff hu, htask, hst]
    rintro ⟨_, h | ⟨_, h, _⟩⟩ <;> simp at h
  have hroom := hC.room hrow (Or.inr hrun)
  have hupto : P'.Upto id (P'.outcomes id) := hO ▸ (hC.late hex hbefore).of_eq hL hK
  have hrow' : P'.memory.rows.get? id = some (c.overwrite v) := by
    rw [hd.memory_eq.1]
    exact hc.files.after_self
  have htrys : (c.overwrite v).trys.toNat = v.trys.toNat + 1 := by
    show (c.trys.getD v.trys).toNat = _
    rw [hc.settles.trys]
    exact Job.toNat_nextAttempt_of_lt hroom
  refine ⟨fun h => ?_, fun hr => ?_, fun hr hs => ?_, ?_, fun hk => ⟨_, hupto.all hk⟩,
    fun _ _ => hupto, fun hb => absurd hb.ex (hover _), fun hex _ => absurd hex (hover _)⟩
  · rw [hrow'] at h
    simp at h
  · obtain rfl := Option.some.inj (hrow'.symm.trans hr)
    rw [htrys, hC.used hrow, hO]
  · obtain rfl := Option.some.inj (hrow'.symm.trans hr)
    obtain ⟨new, hnew, hlead⟩ := hc.settles.leadsTo
    have hstatus : (c.overwrite v).status = new := by
      show c.status.getD v.status = new
      rw [hnew]
      rfl
    rw [hstatus] at hs
    rcases hs with rfl | rfl
    · rw [htrys]
      exact (hc.settles.retry_of_pending hnew).1
    · exact absurd hlead Bool.false_ne_true
  · rw [hL]
    exact hC.ascending

theorem counted_insert {j : Job} (hC : P.Counted id) (hd : P.Happens d P')
    (hnone : d.attempt? id = none) (hfile : d.files id = none)
    (habsent : P.memory.rows.get? id = none) (hrow : P'.memory.rows.get? id = some j)
    (htrys : j.trys = 0) (hmax : 0 < j.tryMax.toNat)
    (hidle : ∀ u, ¬ P'.Executes u id) : P'.Counted id := by
  have hL : P'.attempts id = [] := (attempts_of_none hd hnone).trans (hC.absent habsent).1
  have hO : P'.outcomes id = 0 := (outcomes_of_none hd hfile).trans (hC.absent habsent).2
  have hupto : P'.Upto id (P'.outcomes id) := by
    rw [hO]
    exact ⟨fun ha => by rw [hL] at ha; simp at ha, fun _ => hL⟩
  refine ⟨fun _ => ⟨hL, hO⟩, fun hr => ?_, fun hr _ => ?_, ?_, fun _ => ⟨0, hL⟩, fun _ _ => hupto,
    fun hb => absurd hb.ex (hidle _), fun hex _ => absurd hex (hidle _)⟩
  · obtain rfl := Option.some.inj (hrow.symm.trans hr)
    rw [htrys, hO]
    rfl
  · obtain rfl := Option.some.inj (hrow.symm.trans hr)
    rw [htrys]
    exact hmax
  · rw [hL]
    exact ⟨.nil, fun _ h => absurd h List.not_mem_nil⟩

/-- The start of an attempt: its number is the next one. -/
theorem counted_attempt {v : Job} (hC : P.Counted id) (hx' : P'.Exclusive)
    (hP : P.Sound) (hd : P.Happens d P') (hn : d.attempt? id = some v.nextAttempt.toNat)
    (hfile : d.files id = none)
    (hrow : P.memory.rows.get? id = some v) (hrun : v.status = .running)
    (hrow' : P'.memory.rows.get? id = some v) (hbefore : P.Before d.unit id)
    (hex : P'.Executes d.unit id) (hafter : ¬ P'.Before d.unit id) : P'.Counted id := by
  have hK : P'.Knows id → P.Knows id := knows_of_step hP (.answer hd)
  have hroom := hC.room hrow (Or.inr hrun)
  have hO := outcomes_of_none hd hfile
  have hupto := hC.early hbefore
  have hL : P'.attempts id = P.attempts id ++ [P.outcomes id + 1] := by
    rw [attempts_happens hd, hn, Job.toNat_nextAttempt_of_lt hroom, hC.used hrow]
    rfl
  have hnext : P'.Upto id (P'.outcomes id + 1) := hO ▸ hupto.next hL hK
  refine ⟨fun h => ?_, fun hr => ?_, fun hr _ => ?_, ?_, fun hk => ⟨_, hnext.all hk⟩,
    fun hr hp => ?_, fun hb => absurd (hx'.one hex hb.ex ▸ hb) hafter, fun _ _ => hnext⟩
  · rw [hrow'] at h
    simp at h
  · obtain rfl := Option.some.inj (hrow'.symm.trans hr)
    exact (hC.used hrow).trans hO.symm
  · obtain rfl := Option.some.inj (hrow'.symm.trans hr)
    exact hroom
  · rw [hL]
    refine ⟨List.pairwise_append.mpr ⟨hC.ascending.1, List.pairwise_singleton _ _, ?_⟩, ?_⟩
    · intro a ha b hb
      rw [List.mem_singleton.mp hb]
      exact Nat.lt_succ_of_le (hupto.le ha)
    · intro a ha
      rcases List.mem_append.mp ha with ha | ha
      · exact hC.ascending.2 a ha
      · rw [List.mem_singleton.mp ha]
        exact Nat.succ_le_succ (Nat.zero_le _)
  · obtain rfl := Option.some.inj (hrow'.symm.trans hr)
    rw [hrun] at hp
    simp at hp

theorem executes_back (hex : P'.Executes u id) (hd : P.Happens d P') (hfile : d.files id = none) :
    P.Executes u id := by
  rcases hex.of_happens hd with hex | ⟨_, _, j, hj, _⟩
  · exact hex
  · rw [hfile] at hj
    simp at hj

/-- Who waits between claim and attempt did so before a deed that does not file the job. -/
theorem Reachable.before_back (h' : Reachable ρ (fresh m now) P') (h : Reachable ρ (fresh m now) P)
    (hm : m.Quiet) (hd : P.Happens d P') (hfile : d.files id = none) (hb : P'.Before u id) :
    P.Before u id := by
  by_cases hne : d.unit ≠ u
  · exact (before_other hb.ex hd hne).mp hb
  obtain rfl := Decidable.not_not.mp hne
  have hP := h.sound hm
  obtain ⟨w, p, hu, htask, _, _⟩ := hd.at_unit
  obtain ⟨w₀, p₀, hu₀, htask₀, hq⟩ := hd.at_before
  obtain ⟨_, hearly⟩ := (before_iff hu).mp hb
  rw [htask] at hearly
  rcases (hP.moves hd).early_back hearly with hearly | ⟨s, j, c, hst, hh⟩
  · rw [before_iff hu₀, htask₀, hq]
    exact ⟨executes_back hb.ex hd hfile, hearly⟩
  · -- a claim files the job
    obtain ⟨w', _, hu', _, _, hruns⟩ := (h'.executes_iff hm).mp hb.ex
    obtain rfl := hu.eq hu'
    obtain ⟨hjob, _, _, hfiles⟩ := hP.commit_marked hd hst hh
    rw [← htask, Task.job_of_runs hruns] at hjob
    obtain rfl := Option.some.inj hjob
    rw [hfiles.files, if_pos rfl] at hfile
    simp at hfile

/-- Who has started its attempt had done so before a deed that starts none, or the deed gives up
an attempt at an action that its unit does not know. -/
theorem Reachable.late_back (h' : Reachable ρ (fresh m now) P') (h : Reachable ρ (fresh m now) P)
    (hm : m.Quiet) (hd : P.Happens d P') (hfile : d.files id = none)
    (hnone : d.attempt? id = none) (hex : P'.Executes u id) (hb : ¬ P'.Before u id) :
    ¬ P.Before u id ∨ P.Before u id ∧ ∃ w p v, P.At u w p ∧ w.task.runs = some id ∧
      P.stage u w.task = .loaded v ∧ w.task.knows v.action = false := by
  by_cases hne : d.unit ≠ u
  · exact Or.inl fun hb' => hb ((before_other hex hd hne).mpr hb')
  obtain rfl := Decidable.not_not.mp hne
  obtain ⟨w, p, hu, htask, hasks, _⟩ := hd.at_unit
  obtain ⟨w₀, p₀, hu₀, htask₀, hq⟩ := hd.at_before
  obtain ⟨w', _, hu', _, hst, hruns⟩ := (h'.executes_iff hm).mp hex
  obtain rfl := hu.eq hu'
  have hearly : ¬ (P'.stage d.unit w.task).Early d.asks :=
    fun hearly => hb ((before_iff hu).mpr ⟨hex, hasks ▸ hearly⟩)
  rw [htask] at hst hruns hearly
  rcases ((h.sound hm).moves hd).late_back hst hearly with
    ⟨i, hi⟩ | ⟨_, hearly⟩ | ⟨v, hload, hbegin, hk⟩
  · -- the attempt starts now
    obtain ⟨_, _, hruns', _⟩ := h'.invokes hm hd hi
    obtain rfl : i.job = id := Option.some.inj (hruns'.symm.trans hruns)
    unfold Deed.attempt? at hnone
    rw [hi] at hnone
    simp at hnone
  · left
    rw [before_iff hu₀, htask₀, hq]
    exact fun hb => hearly hb.2
  · right
    rw [← htask₀] at hload hruns hk
    refine ⟨(before_iff hu₀).mpr ⟨executes_back hex hd hfile, Or.inr ⟨v, hload, ?_⟩⟩,
      w₀, p₀, v, hu₀, hruns, hload, hk⟩
    rw [hq, hbegin]
    simp

theorem counted_same (hC : P.Counted id) (hx : P.Exclusive) (h : Reachable ρ (fresh m now) P)
    (h' : Reachable ρ (fresh m now) P') (hm : m.Quiet) (hd : P.Happens d P')
    (hnone : d.attempt? id = none) (hfile : d.files id = none)
    (hsame : P'.memory.rows.get? id = P.memory.rows.get? id) : P'.Counted id := by
  have hL := attempts_of_none hd hnone
  have hO := outcomes_of_none hd hfile
  have hK : P'.Knows id → P.Knows id := knows_of_step (h.sound hm) (.answer hd)
  refine ⟨?_, ?_, ?_, ?_, fun hk => hL ▸ hC.known (hK hk), ?_, ?_, ?_⟩
  · rw [hL, hO, hsame]
    exact hC.absent
  · rw [hO, hsame]
    exact hC.used
  · rw [hsame]
    exact hC.room
  · rw [hL]
    exact hC.ascending
  · rw [hO, hsame]
    exact fun hr hp => (hC.pending hr hp).of_eq hL hK
  · rw [hO]
    exact fun hb => (hC.early (h'.before_back h hm hd hfile hb)).of_eq hL hK
  · rw [hO]
    intro u hex hb
    rcases h'.late_back h hm hd hfile hnone hex hb with
      hb | ⟨hb, w, p, v, hu, hruns, hst, hk⟩
    · exact (hC.late (executes_back hex hd hfile) hb).of_eq hL hK
    · have hupto := hC.early hb
      refine ⟨fun ha => Nat.le_succ_of_le (hupto.le (hL ▸ ha)), fun hknows => ?_⟩
      obtain ⟨hrow, _⟩ := hx.row_of_view h hm hb.ex hu (v := v) (by rw [hst]; rfl)
      have hyes := hK hknows w (List.mem_of_getElem? hu.unit) v hruns hrow
      rw [hk] at hyes
      exact absurd hyes Bool.false_ne_true

/-- Who starts an attempt executes the job, had not started one before, and now has. -/
theorem Reachable.starts {i : Invocation} (h' : Reachable ρ (fresh m now) P')
    (h : Reachable ρ (fresh m now) P) (hm : m.Quiet) (hd : P.Happens d P') (hi : d.Invokes i) :
    P'.Executes d.unit i.job ∧ P.Before d.unit i.job ∧ ¬ P'.Before d.unit i.job := by
  obtain ⟨v, hst, hruns, _⟩ := h'.invokes hm hd hi
  obtain ⟨w, p, hu, htask, hasks, _⟩ := hd.at_unit
  have hq : p.question = some (.invoke i) := hasks.symm.trans hi
  have hex : P'.Executes d.unit i.job := h'.executes_of_invoke hm hu hq
  refine ⟨hex, ?_, ?_⟩
  · obtain ⟨w₀, p₀, hu₀, htask₀, hq₀⟩ := hd.at_before
    have hfile := h'.files_none_of_invokes hm (h.sound hm) hd hi i.job
    rw [before_iff hu₀, htask₀, hq₀]
    exact ⟨executes_back hex hd hfile, (hst ▸ (h.sound hm).moves hd).loaded⟩
  · rw [before_iff hu, htask, hst, hq]
    rintro ⟨_, h | ⟨_, _, h⟩⟩
    · simp at h
    · exact h i rfl

theorem counted_untouched (hC : P.Counted id) (hx : P.Exclusive) (hx' : P'.Exclusive)
    (h : Reachable ρ (fresh m now) P) (h' : Reachable ρ (fresh m now) P') (hm : m.Quiet)
    (hd : P.Happens d P') (hfile : d.files id = none)
    (hsame : P'.memory.rows.get? id = P.memory.rows.get? id) : P'.Counted id := by
  cases hn : d.attempt? id with
  | none => exact counted_same hC hx h h' hm hd hn hfile hsame
  | some n =>
    obtain ⟨i, hi, rfl, rfl⟩ := Deed.attempt?_eq_some hn
    obtain ⟨v, hst, hruns, hrun, deadline, hi'⟩ := h'.invokes hm hd hi
    obtain ⟨hex, hbefore, hafter⟩ := h'.starts h hm hd hi
    obtain ⟨w, p, hu, htask, _⟩ := hd.at_unit
    obtain ⟨hrow', _⟩ := hx'.row_of_view h' hm hex hu (v := v) (by rw [htask, hst]; rfl)
    exact counted_attempt hC hx' (h.sound hm) hd (hi' ▸ hn) hfile (hsame ▸ hrow') hrun hrow'
      hbefore hex hafter

theorem Reachable.before_of_claims (h' : Reachable ρ (fresh m now) P') (hm : m.Quiet)
    (hP : P.Sound) (hd : P.Happens d P') (hclaim : d.Claims id) (hex : P'.Executes d.unit id) :
    P'.Before d.unit id := by
  obtain ⟨s, _, _, c, hst, hh, _⟩ := (hP.filing hd).of_claims hclaim
  obtain ⟨w, p, hu, _, hexec, _⟩ := (h'.executes_iff hm).mp hex
  obtain ⟨w', _, hu', htask, _⟩ := hd.at_unit
  obtain rfl := hu.eq hu'
  refine (before_iff hu).mpr ⟨hex, Or.inl ?_⟩
  have hmove := hP.moves hd
  rw [hst, hh] at hmove
  rw [htask] at hexec ⊢
  generalize P'.stage d.unit d.task = st at hmove hexec ⊢
  cases hmove with
  | stays _ hno => exact absurd rfl (hno s)
  | ends => exact absurd hexec Bool.false_ne_true
  | claims => rfl

theorem counted_happens (hC : P.Counted id) (hx : P.Exclusive) (hx' : P'.Exclusive)
    (h : Reachable ρ (fresh m now) P) (h' : Reachable ρ (fresh m now) P') (hm : m.Quiet)
    (hd : P.Happens d P') (hno : ¬ d.Resets id) : P'.Counted id := by
  have hP := h.sound hm
  have hfiling := hP.filing hd
  rcases hfiling.row_cases id with
    ⟨hfile, hsame⟩ | ⟨r, j, hfile, _⟩ | ⟨hfile, habsent, _, _, _, _, j, htask, hj, hrow⟩
  · rw [← hd.memory_eq.1, ← hd.memory_eq.2] at hsame
    exact counted_untouched hC hx hx' h h' hm hd hfile hsame
  · have hnone : d.attempt? id = none := by
      refine Deed.attempt?_eq_none fun i hi => ?_
      rw [h'.files_none_of_invokes hm hP hd hi] at hfile
      simp at hfile
    rcases hfiling.files_cases hfile with hclaim | hreset | ⟨v, r, how, c, hc⟩
    · refine counted_claim hC h hm hd hnone hclaim fun u hex => ?_
      rcases hex.of_happens hd with hex₀ | ⟨rfl, _⟩
      · exact absurd hex₀ (hx.not_claims h hm hd hclaim)
      · exact h'.before_of_claims hm hP hd hclaim hex
    · exact absurd hreset hno
    · refine counted_conclude hC hx h hm hd hnone hc fun u hex => ?_
      have hover := h'.not_executes_of_concludes hm hP hd hc
      rcases hex.of_happens hd with hex₀ | ⟨rfl, _⟩
      · obtain rfl := hx.one hex₀ (h.executes_of_concludes hm hd hc)
        exact hover hex
      · exact hover hex
  · rw [← hd.memory_eq.1] at hrow
    rw [← hd.memory_eq.2] at habsent
    obtain ⟨_, _, htrys, hmax⟩ := NewJob.of_toJob_eq_ok hj
    refine counted_insert hC hd ?_ hfile habsent hrow htrys hmax fun u hex => ?_
    · refine Deed.attempt?_eq_none fun i hi => ?_
      obtain ⟨_, _, hruns, _⟩ := h'.invokes hm hd hi
      rw [htask] at hruns
      simp [Task.runs] at hruns
    · obtain ⟨_, _, r, _, _, hr, _⟩ := hx.row h hm (executes_back hex hd hfile)
      rw [habsent] at hr
      simp at hr

/-- Where no job is put back, the attempts at a job that had none are counted. -/
theorem Reachable.counted (h : Reachable ρ (fresh m now) P) (hm : m.Quiet)
    (hρ : ∀ P P', ρ P P' → WithoutResets P P')
    (hnew : ∀ r, m.rows.get? id = some r → r.trys = 0 ∧ 0 < r.tryMax.toNat) : P.Counted id := by
  have hρ' : ∀ P P', ρ P P' → Orderly P P' := fun P P' h => orderly_of_withoutResets (hρ P P' h)
  refine h.invariant (I := fun P => P.Counted id) ?_ fun P P' hP hC hs hr => ?_
  · have hupto : (fresh m now).Upto id 0 := ⟨fun ha => absurd ha List.not_mem_nil, fun _ => rfl⟩
    have hidle (u : Nat) : ¬ (fresh m now).Executes u id := by
      rintro ⟨⟨d, hd, _⟩, _⟩
      exact absurd hd List.not_mem_nil
    refine ⟨fun _ => ⟨rfl, rfl⟩, fun hr => ?_, fun hr _ => ?_,
      ⟨.nil, fun _ h => absurd h List.not_mem_nil⟩, fun _ => ⟨0, rfl⟩, fun _ _ => hupto,
      fun hb => absurd hb.ex (hidle _), fun hex _ => absurd hex (hidle _)⟩
    · rw [(hnew _ hr).1]
      rfl
    · rw [(hnew _ hr).1]
      exact (hnew _ hr).2
  · have hP' : Reachable ρ (fresh m now) P' := .step hP hs hr
    rcases (hP.sound hm).step_cases hs with ⟨d, hd⟩ | ⟨hpast, hrows, hat⟩
    · refine counted_happens hC (hP.exclusive hm hρ') (hP'.exclusive hm hρ') hP hP' hm hd ?_
      rintro ⟨hcleans, _⟩
      obtain ⟨w, p, hu, htask, _⟩ := hd.at_unit
      have hno := hρ _ _ hr w (List.mem_of_getElem? hu.unit)
      rw [htask, hcleans] at hno
      simp at hno
    · exact counted_quiet hC (hP.sound hm) hs hpast hrows hat

/-- Whoever runs the job's action knows it. -/
theorem Reachable.known_of_invokes {i : Invocation} (h : Reachable ρ (fresh m now) P')
    (hm : m.Quiet) (hx : P'.Exclusive) (hd : P.Happens d P') (hi : d.Invokes i) :
    P'.Known i.job := by
  obtain ⟨w, p, hu, htask, hasks, _⟩ := hd.at_unit
  have hq : p.question = some (.invoke i) := hasks.symm.trans hi
  have hex : P'.Executes d.unit i.job := h.executes_of_invoke hm hu hq
  obtain ⟨v, hst, hruns, _⟩ := h.invokes hm hd hi
  rw [← htask] at hst hruns
  obtain ⟨hrow, _⟩ := hx.row_of_view h hm hex hu (v := v) (by rw [hst]; rfl)
  refine ⟨w, List.mem_of_getElem? hu.unit, v, hruns, hrow, ?_⟩
  exact ((h.sound hm).may hu hq).knows hst

/-- A job whose action was run is known to some unit that is to run it. -/
theorem Reachable.known (h : Reachable WithoutResets (fresh m now) P) (hm : m.Quiet)
    (hne : P.attempts id ≠ []) : P.Known id := by
  refine h.invariant (I := fun P => P.attempts id ≠ [] → P.Known id) (fun hne => absurd rfl hne)
    (fun P P' hP ih hs hr hne => ?_) hne
  have hsound := hP.sound hm
  have hP' : Reachable WithoutResets (fresh m now) P' := .step hP hs hr
  by_cases hold : P.attempts id = []
  · rcases hs.cases_past with ⟨d, hd⟩ | ⟨hpast, _⟩
    · cases hn : d.attempt? id with
      | none => exact absurd ((attempts_of_none hd hn).trans hold) hne
      | some n =>
        obtain ⟨i, hi, rfl, _⟩ := Deed.attempt?_eq_some hn
        exact hP'.known_of_invokes hm (hP'.exclusive hm fun _ _ => orderly_of_withoutResets) hd hi
    · exact absurd (by unfold attempts at hold ⊢; rw [hpast, hold]) hne
  · exact (ih hold).of_step hsound hs

/-- The number of an attempt is one more than the attempts that were recorded as ended before. -/
theorem Reachable.attempt_eq (h : Reachable WithoutResets (fresh m now) P) (hm : m.Quiet)
    {xs ys : List Deed} {i : Invocation} (hsplit : P.past = xs ++ d :: ys) (hi : d.Invokes i)
    (hnew : ∀ r, m.rows.get? i.job = some r → r.trys = 0 ∧ 0 < r.tryMax.toNat) :
    i.attempt.toNat = xs.countP (Deed.ends i.job) + 1 := by
  obtain ⟨Q, Q', hQ, rfl, hd, hr, _⟩ := h.deed rfl hsplit
  have hQ' : Reachable WithoutResets (fresh m now) Q' := .step hQ (.answer hd) hr
  have hC : Q'.Counted i.job := hQ'.counted hm (fun _ _ h => h) hnew
  obtain ⟨w, p, hu, htask, hasks, _⟩ := hd.at_unit
  have hex := hQ'.executes_of_invoke hm hu (hasks.symm.trans hi)
  obtain ⟨v, hst, _, hrun, deadline, hi'⟩ := hQ'.invokes hm hd hi
  have hx : Q'.Exclusive := hQ'.exclusive hm fun _ _ => orderly_of_withoutResets
  obtain ⟨hrow, _⟩ := hx.row_of_view hQ' hm hex hu (v := v) (by rw [htask, hst]; rfl)
  have hfile := hQ'.files_none_of_invokes hm (hQ.sound hm) hd hi i.job
  rw [show i.attempt = v.nextAttempt by rw [hi']; rfl,
    Job.toNat_nextAttempt_of_lt (hC.room hrow (Or.inr hrun)), hC.used hrow,
    outcomes_of_none hd hfile]
  rfl

/-- **Executions exclude each other.**  Where no job is put back, in every order of the steps of any
units, abandoned or not, one unit at a time is between its claim of a job and its end, and so no two
runs of one job's action overlap.  The runs of a new job's action have rising numbers, each one more
than the attempts that ended before; they are 1, 2, 3 and so on for the units of one engine, which
know the action or do not know it alike. -/
theorem executions_exclude_each_other (hm : m.Quiet)
    (h : Reachable WithoutResets (fresh m now) P) :
    (∀ u v id, P.Executes u id → P.Executes v id → u = v) ∧
    (∀ (u v : Nat) (w w' : WorkUnit) (i i' : Invocation), P.units[u]? = some w →
      P.units[v]? = some w' →
      w.question = some (.invoke i) → w'.question = some (.invoke i') → i.job = i'.job → u = v) ∧
    ∀ id, (∀ r, m.rows.get? id = some r → r.trys = 0 ∧ 0 < r.tryMax.toNat) →
      (P.attempts id).Pairwise (· < ·) ∧
      (∀ xs d ys i, P.past = xs ++ d :: ys → d.Invokes i → i.job = id →
        i.attempt.toNat = xs.countP (Deed.ends id) + 1) ∧
      (P.Alike id → P.attempts id = List.range' 1 (P.attempts id).length) := by
  have hx : P.Exclusive := h.exclusive hm fun _ _ => orderly_of_withoutResets
  refine ⟨fun u v id hu hv => hx.one hu hv, fun u v w w' i i' hw hw' hq hq' hid => ?_,
    fun id hnew => ?_⟩
  · have hat {u : Nat} {w : WorkUnit} {i : Invocation} (hw : P.units[u]? = some w)
        (hq : w.question = some (.invoke i)) : P.Executes u i.job := by
      obtain ⟨p, hp, hq⟩ := Option.bind_eq_some_iff.mp hq
      exact h.executes_of_invoke hm ⟨hw, hp⟩ hq
    exact hx.one (hat hw hq) (hid ▸ hat hw' hq')
  · have hC : P.Counted id := h.counted hm (fun _ _ h => h) hnew
    refine ⟨hC.ascending.1, fun xs d ys i hsplit hi hid => ?_, fun halike => ?_⟩
    · subst hid
      exact h.attempt_eq hm hsplit hi hnew
    · by_cases hnil : P.attempts id = []
      · rw [hnil]
        rfl
      · obtain ⟨n, hn⟩ := hC.known ((h.known hm hnil).knows halike)
        rw [hn, List.length_range']

/-- A first attempt that times out, and a second one by a unit that had waited for its turn. -/
theorem first_and_second_attempt : ∃ P, Reachable WithoutResets (fresh loneStore .epoch) P ∧
    P.Executes 1 lone.id ∧ (∀ u, P.Executes u lone.id → u = 1) ∧
    P.Alike lone.id ∧ P.attempts lone.id = List.range' 1 2 := by
  let script : List Cue := [.start loneRun, .start loneRun] ++ goes 0 4 ++ goes 1 1 ++ goes 0 10 ++
    goes 1 6
  obtain ⟨P, hP, hall⟩ := reachable_of_play (P := fresh loneStore .epoch)
    (ρ := WithoutResets) (fun _ P => P.units.all fun w => w.task.cleans = false) script
    (fun P => ((P.attempts lone.id).length, P.units.all fun w => w.task.knows lone.action,
      (P.memory.rows.get? lone.id).map Job.action, P.acts 1))
    (a := (2, true, some lone.action, some lone.id))
    (fun P P' h w hw => of_decide_eq_true (List.all_eq_true.mp h w hw)) (by decide +kernel)
  obtain ⟨hlength, hall⟩ := Prod.mk.inj hall
  obtain ⟨hkinds, hall⟩ := Prod.mk.inj hall
  obtain ⟨haction, hacts⟩ := Prod.mk.inj hall
  have hthm := executions_exclude_each_other loneStore_quiet hP
  obtain ⟨w, p, i, hu, hq, hjob⟩ := acts_eq_some hacts
  have hex : P.Executes 1 lone.id := hjob ▸ hP.executes_of_invoke loneStore_quiet hu hq
  have halike : P.Alike lone.id := by
    intro w hw w' hw' r _ _ hr
    rw [hr] at haction
    rw [show r.action = lone.action from Option.some.inj haction]
    have hknows := List.all_eq_true.mp hkinds
    exact (hknows w hw).trans (hknows w' hw').symm
  refine ⟨P, hP, hex, fun u hu => hthm.1 _ _ _ hu hex, halike, ?_⟩
  have hnew : ∀ r, loneStore.rows.get? lone.id = some r → r.trys = 0 ∧ 0 < r.tryMax.toNat := by
    intro r hr
    obtain rfl : lone = r := Option.some.inj hr
    exact ⟨rfl, by decide⟩
  exact hlength ▸ (hthm.2.2 _ hnew).2.2 halike

/-- A unit that runs the job, on a worker that does not know its action. -/
def strangerRun : Task := .run ⟨[]⟩ "worker" lone.id 1000

/-- When the second attempt at the job is due, if the first one fails at once. -/
def secondDue : Instant := (Instant.epoch.addSecs? 600).getD .epoch

/-- The first attempt at a new job falls to a worker that does not know its action, and fails without
a run of it; when the job is due again, a worker that knows the action runs it for the first time,
as number 2. -/
theorem first_run_is_the_second_attempt : ∃ P, Reachable WithoutResets (fresh loneStore .epoch) P ∧
    loneStore.rows.get? lone.id = some lone ∧ lone.trys = 0 ∧ P.attempts lone.id = [2] ∧
    ∃ r, P.memory.rows.get? lone.id = some r ∧ r.runAt ≤ P.now := by
  let script : List Cue := [.start strangerRun] ++ goes 0 13 ++
    [.clock secondDue, .start loneRun] ++ goes 1 7
  obtain ⟨P, hP, hall⟩ := reachable_of_play (P := fresh loneStore .epoch)
    (ρ := WithoutResets) (fun _ P => P.units.all fun w => w.task.cleans = false) script
    (fun P => (P.attempts lone.id,
      (P.memory.rows.get? lone.id).map fun r => decide (r.runAt ≤ P.now)))
    (a := ([2], some true))
    (fun P P' h w hw => of_decide_eq_true (List.all_eq_true.mp h w hw)) (by decide +kernel)
  obtain ⟨hattempts, hrow⟩ := Prod.mk.inj hall
  obtain ⟨r, hr, hdue⟩ := Option.map_eq_some_iff.mp hrow
  exact ⟨P, hP, rfl, rfl, hattempts, r, hr, of_decide_eq_true hdue⟩

end Pool

end JobEngine
