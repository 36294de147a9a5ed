import JobEngine.Proofs.Pool.Execution
import JobEngine.Proofs.Pool.Play

/-!
# Mutual exclusion

The row's lock goes with the claim, before the action runs.  What keeps others away from the job is
its status: it is running, nobody claims a running job, and only the unit that runs it files it.
This holds as long as nobody puts the job back meanwhile.

* `Pool.Orderly`        the rule that no job is put back while a unit executes it;
* `Pool.Exclusive`      one unit executes a job, and nobody else has filed it since the claim;
* `Reachable.exclusive`   it holds under the rule;
* `Exclusive.row`       then the row is what the unit claimed, and what it has loaded.
-/

namespace JobEngine.Pool

/-- No job is put back while a unit executes it. -/
def Orderly (P P' : Pool) : Prop := ∀ d id u, P.Happens d P' → d.Resets id → ¬ P.Executes u id

/-- No unit puts jobs back. -/
def WithoutResets (_ P' : Pool) : Prop := ∀ w ∈ P'.units, w.task.cleans = false

variable {P P' : Pool} {d e : Deed} {u : Nat} {id : JobId} {ρ : Pool → Pool → Prop} {m : Memory}
  {now : Instant}

theorem orderly_of_withoutResets (h : WithoutResets P P') : Orderly P P' := by
  intro d id u hd hreset _
  obtain ⟨w, p, hu, htask, _⟩ := hd.at_unit
  have hno := h w (List.mem_of_getElem? hu.unit)
  rw [htask] at hno
  exact absurd (hno.symm.trans hreset.1) Bool.false_ne_true

/-- A test for the rule: who puts jobs back does so when all that ran some are over. -/
def settled (P P' : Pool) : Bool :=
  !P'.past.getLast?.any (·.task.cleans) || P.past.all fun e =>
    !e.task.runs.isSome || (P.units[e.unit]?.bind WorkUnit.question).isNone

theorem orderly_of_settled (h : settled P P' = true) : Orderly P P' := by
  rintro d id u hd ⟨hcleans, _⟩ ⟨⟨e, he, rfl, hclaim⟩, w, hw, hlive⟩
  unfold settled at h
  rw [hd.past_eq, List.getLast?_concat, Option.any_some, hcleans] at h
  have hall := List.all_eq_true.mp h e he
  rw [hclaim.1, hw, Option.bind_some] at hall
  rw [WorkUnit.Live] at hlive
  cases hq : w.question <;> simp [hq] at hlive hall

structure Exclusive (P : Pool) : Prop where
  /-- One unit executes a job. -/
  one {u v : Nat} {id : JobId} : P.Executes u id → P.Executes v id → u = v
  /-- Nobody has filed the job since its claim. -/
  own {u : Nat} {id : JobId} {xs ys : List Deed} {e : Deed} : P.Executes u id →
    P.past = xs ++ e :: ys → e.unit = u → e.Claims id → ∀ d ∈ ys, d.files id = none

/-- The row of a job that is executed is what its unit claimed, and has loaded. -/
theorem Exclusive.row (hx : P.Exclusive) (h : Reachable ρ (fresh m now) P) (hm : m.Quiet)
    (hex : P.Executes u id) : ∃ w p j, P.At u w p ∧ w.task.runs = some id ∧
      P.memory.rows.get? id = some j ∧ j.status = .running ∧
      (P.stage u w.task).Executing ∧ ∀ v, (P.stage u w.task).view = some v → v = j := by
  obtain ⟨w, p, hu, hq, hst, hruns⟩ := (h.executes_iff hm).mp hex
  obtain ⟨xs, ys, e, j, hholds⟩ := h.holds hm hu hst hruns
  obtain ⟨hrow, hview⟩ := hholds.row (hx.own hex hholds.past hholds.unit hholds.claims)
  exact ⟨w, p, j, hu, hruns, hrow, hholds.status, hst, hview⟩

theorem Exclusive.row_of_view {w : WorkUnit} {p : Program Engine Upshot} {v : Job}
    (hx : P.Exclusive) (h : Reachable ρ (fresh m now) P) (hm : m.Quiet) (hex : P.Executes u id)
    (hu : P.At u w p) (hv : (P.stage u w.task).view = some v) :
    P.memory.rows.get? id = some v ∧ v.status = .running := by
  obtain ⟨w', _, j, hu', _, hrow, hrun, _, hview⟩ := hx.row h hm hex
  obtain rfl := hu.eq hu'
  obtain rfl := hview v hv
  exact ⟨hrow, hrun⟩

theorem Exclusive.not_claims (hx : P.Exclusive) (h : Reachable ρ (fresh m now) P) (hm : m.Quiet)
    (hd : P.Happens d P') (hclaim : d.Claims id) : ¬ P.Executes u id := by
  intro hex
  obtain ⟨_, _, j, _, _, hrow, hrunning, _⟩ := hx.row h hm hex
  obtain ⟨s, j', _, _, _, _, _, hrow', hpending, _⟩ := ((h.sound hm).filing hd).of_claims hclaim
  rw [hd.memory_eq.2, hrow'] at hrow
  rw [Option.some.inj hrow, hrunning] at hpending
  simp at hpending

theorem Reachable.claims_once (h : Reachable ρ (fresh m now) P) (hm : m.Quiet)
    (hd : P.Happens d P') (hclaim : d.Claims id) (he : e ∈ P.past) (heu : e.unit = d.unit)
    (hclaim' : e.Claims id) : False := by
  obtain ⟨s, j, _, c, hst, _⟩ := ((h.sound hm).filing hd).of_claims hclaim
  obtain ⟨w, p, hu, htask, _⟩ := hd.at_before
  have hlate := h.late hm hu he heu hclaim'
  rw [htask, hst] at hlate
  rcases hlate with hlate | hlate
  · exact absurd hlate Bool.false_ne_true
  · simp at hlate

theorem Reachable.not_executes_of_concludes {v r : Job} {how : Except ActionError Json}
    {c : Changes}
    (h : Reachable ρ (fresh m now) P') (hm : m.Quiet) (hP : P.Sound) (hd : P.Happens d P')
    (hc : P.Concludes d id v r how c) : ¬ P'.Executes d.unit id := by
  intro hex
  obtain ⟨w, p, hu, _, hst, _⟩ := (h.executes_iff hm).mp hex
  obtain ⟨w', _, hu', htask, _⟩ := hd.at_unit
  obtain rfl := hu.eq hu'
  obtain ⟨s, hrec, hh⟩ := hc.stage
  have hmove := hP.moves hd
  rw [hrec, hh] at hmove
  rw [htask] at hst
  generalize P'.stage d.unit d.task = st at hmove hst
  cases hmove with
  | stays _ hno => exact hno s rfl
  | ends => exact absurd hst Bool.false_ne_true

/-- While a unit executes a job, no deed but the end of its attempt files it. -/
theorem Exclusive.files_none (hx : P.Exclusive) (h : Reachable ρ (fresh m now) P) (hm : m.Quiet)
    (hd : P.Happens d P') (hρ : ρ P P') (hr : Orderly P P') (hex : P.Executes u id)
    (hex' : P'.Executes u id) : d.files id = none := by
  cases hfile : d.files id with
  | none => rfl
  | some j =>
    exfalso
    rcases ((h.sound hm).filing hd).files_cases hfile with hclaim | hreset | ⟨v, r, how, c, hc⟩
    · exact hx.not_claims h hm hd hclaim hex
    · exact hr d id u hd hreset hex
    · have hP' : Reachable ρ (fresh m now) P' := .step h (.answer hd) hρ
      obtain rfl := hx.one hex (h.executes_of_concludes hm hd hc)
      exact hP'.not_executes_of_concludes hm (h.sound hm) hd hc hex'

theorem exclusive_happens (hx : P.Exclusive) (h : Reachable ρ (fresh m now) P) (hm : m.Quiet)
    (hd : P.Happens d P') (hρ : ρ P P') (hr : Orderly P P') : P'.Exclusive where
  one {u v id} hu hv := by
    rcases hu.of_happens hd with hu | ⟨rfl, hclaim⟩ <;>
      rcases hv.of_happens hd with hv | ⟨rfl, hclaim'⟩
    · exact hx.one hu hv
    · exact absurd hu (hx.not_claims h hm hd hclaim')
    · exact absurd hv (hx.not_claims h hm hd hclaim)
    · rfl
  own {u id xs ys e} hex hsplit heu hclaim := by
    rw [hd.past_eq] at hsplit
    rcases split_concat hsplit with ⟨rfl, _, _⟩ | ⟨ys, rfl, hpast⟩
    · intro d hd
      exact absurd hd List.not_mem_nil
    · rcases hex.of_happens hd with hex₀ | ⟨rfl, hclaim'⟩
      · intro d' hd'
        rcases List.mem_append.mp hd' with hd' | hd'
        · exact hx.own hex₀ hpast heu hclaim d' hd'
        · rw [List.mem_singleton.mp hd']
          exact hx.files_none h hm hd hρ hr hex₀ hex
      · exact (h.claims_once hm hd hclaim' (by rw [hpast]; simp) heu hclaim).elim

theorem exclusive_quiet (hx : P.Exclusive) (hpast : P'.past = P.past)
    (hat : ∀ v w p, P'.At v w p → P.At v w p ∨ P'.told v = []) : P'.Exclusive where
  one hu hv := hx.one (hu.of_quiet hpast hat) (hv.of_quiet hpast hat)
  own hex hsplit := hx.own (hex.of_quiet hpast hat) (hpast ▸ hsplit)

/-- As long as no job is put back while it is executed, one unit at a time executes it. -/
theorem Reachable.exclusive (h : Reachable ρ (fresh m now) P) (hm : m.Quiet)
    (hρ : ∀ P P', ρ P P' → Orderly P P') : P.Exclusive := by
  refine h.invariant ?_ fun P P' hP hx hs hr => ?_
  · have hno (u : Nat) (id : JobId) : ¬ (fresh m now).Executes u id := by
      rintro ⟨⟨d, hd, _⟩, _⟩
      exact absurd hd List.not_mem_nil
    exact ⟨fun hu => absurd hu (hno _ _), fun hu => absurd hu (hno _ _)⟩
  · rcases (hP.sound hm).step_cases hs with ⟨d, hd⟩ | ⟨hpast, _, hat⟩
    · exact exclusive_happens hx hP hm hd hr (hρ _ _ hr)
    · exact exclusive_quiet hx hpast hat

end JobEngine.Pool
