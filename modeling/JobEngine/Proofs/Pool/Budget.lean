import JobEngine.Proofs.Pool.Attempts
import JobEngine.Proofs.Pool.WellFormed

/-!
# How often an action is run

An attempt that dies before its end is recorded uses up no try.  What keeps the runs of a job's
action within bounds is that such a job stays running until it is put back, so that each run that
is not counted in the row has a reset of its own, but for the one that may be going on.

* `Pool.resets`          how often a job was put back;
* `Pool.Bounded`         the runs of the action against tries and resets, by the status of the row;
* `Reachable.bounded`    they always keep these bounds;
* `runs_within_budget`   no job is run more often than it may be, but for once a reset.
-/

namespace JobEngine

/-- The deed puts the job back. -/
def Deed.resets (id : JobId) (d : Deed) : Bool := d.task.cleans && (d.files id).isSome

theorem Deed.resets_iff {d : Deed} {id : JobId} : d.resets id = true ↔ d.Resets id := by
  unfold resets Resets
  rw [Bool.and_eq_true, Option.isSome_iff_exists]

namespace Pool

/-- How often the job was put back. -/
def resets (P : Pool) (id : JobId) : Nat := P.past.countP (Deed.resets id)

/-- How often the job's action was run. -/
def runs (P : Pool) (id : JobId) : Nat := (P.attempts id).length

/-- The runs of a job's action are covered by the tries that its row has used up, by resets and, if
one may be going on, by that one. -/
structure Bounded (P : Pool) (id : JobId) : Prop where
  absent : P.memory.rows.get? id = none → P.runs id = 0
  idle {r : Job} : P.memory.rows.get? id = some r → r.status ≠ .running →
    P.runs id ≤ r.trys.toNat + P.resets id
  running {r : Job} : P.memory.rows.get? id = some r → r.status = .running →
    P.runs id ≤ r.trys.toNat + P.resets id + 1
  early {u : Nat} {r : Job} : P.Before u id → P.memory.rows.get? id = some r →
    P.runs id ≤ r.trys.toNat + P.resets id

variable {P P' : Pool} {d : Deed} {id : JobId} {r : Job} {ρ : Pool → Pool → Prop} {m : Memory}
  {now : Instant}

theorem runs_happens (hd : P.Happens d P') (id : JobId) :
    P'.runs id = P.runs id + if (d.attempt? id).isSome then 1 else 0 := by
  unfold runs
  rw [attempts_happens hd, List.length_append]
  cases d.attempt? id <;> rfl

theorem resets_happens (hd : P.Happens d P') (id : JobId) :
    P'.resets id = P.resets id + if d.resets id then 1 else 0 := by
  unfold resets
  rw [hd.past_eq, List.countP_append, List.countP_singleton]

theorem resets_of_none (hd : P.Happens d P') (hno : ¬ d.Resets id) :
    P'.resets id = P.resets id := by
  rw [resets_happens hd, if_neg fun h => hno (Deed.resets_iff.mp h)]
  rfl

theorem runs_of_files {j : Job} (h' : Reachable ρ (fresh m now) P') (hm : m.Quiet) (hP : P.Sound)
    (hd : P.Happens d P') (hfile : d.files id = some j) : P'.runs id = P.runs id := by
  rw [runs_happens hd, Deed.attempt?_eq_none fun i hi => ?_]
  · rfl
  · rw [h'.files_none_of_invokes hm hP hd hi] at hfile
    simp at hfile

theorem Happens.row_of_files {j : Job} (hd : P.Happens d P') (hfiles : d.FilesOnly id j) :
    P'.memory.rows.get? id = some j := hd.memory_eq.1 ▸ hfiles.after_self

theorem not_resets_of_runs (h : d.task.runs.isSome) : ¬ d.Resets id := by
  rintro ⟨hcleans, _⟩
  cases ht : d.task <;> simp [ht, Task.runs, Task.cleans] at h hcleans

/-! ## each step -/

theorem bounded_quiet (hB : P.Bounded id) (hpast : P'.past = P.past)
    (hrows : P'.memory.rows = P.memory.rows)
    (hat : ∀ v w p, P'.At v w p → P.At v w p ∨ P'.told v = []) : P'.Bounded id := by
  have hruns : P'.runs id = P.runs id := by unfold runs attempts; rw [hpast]
  have hresets : P'.resets id = P.resets id := by unfold resets; rw [hpast]
  refine ⟨?_, ?_, ?_, fun hb => ?_⟩
  · rw [hruns, hrows]
    exact hB.absent
  · rw [hruns, hresets, hrows]
    exact hB.idle
  · rw [hruns, hresets, hrows]
    exact hB.running
  · rw [hruns, hresets, hrows]
    exact hB.early ((before_quiet hb.ex hpast hat).mp hb)

/-- The row is left alone; an action may be run. -/
theorem bounded_same (hB : P.Bounded id) (h : Reachable Orderly (fresh m now) P)
    (h' : Reachable Orderly (fresh m now) P') (hm : m.Quiet) (hd : P.Happens d P')
    (hfile : d.files id = none) (hsame : P'.memory.rows.get? id = P.memory.rows.get? id) :
    P'.Bounded id := by
  have hresets : P'.resets id = P.resets id := resets_of_none hd (by simp [Deed.Resets, hfile])
  have hruns := runs_happens hd id
  cases hn : d.attempt? id with
  | none =>
    rw [hn] at hruns
    refine ⟨?_, ?_, ?_, fun hb => ?_⟩ <;> rw [hruns, hsame]
    · exact hB.absent
    · rw [hresets]
      exact hB.idle
    · rw [hresets]
      exact hB.running
    · rw [hresets]
      exact hB.early (h'.before_back h hm hd hfile hb)
  | some n =>
    rw [hn] at hruns
    obtain ⟨i, hi, rfl, _⟩ := Deed.attempt?_eq_some hn
    obtain ⟨hex, hbefore, hafter⟩ := h'.starts h hm hd hi
    have hx' : P'.Exclusive := h'.exclusive hm fun _ _ h => h
    obtain ⟨_, _, r, _, _, hrow, hrun, _⟩ := hx'.row h' hm hex
    have hbound := hB.early hbefore (hsame ▸ hrow)
    refine ⟨fun hno => ?_, fun hr hstatus => ?_, fun hr _ => ?_, fun hb => ?_⟩
    · rw [hrow] at hno
      simp at hno
    · obtain rfl := Option.some.inj (hrow.symm.trans hr)
      exact absurd hrun hstatus
    · obtain rfl := Option.some.inj (hrow.symm.trans hr)
      rw [hruns, hresets]
      exact Nat.succ_le_succ hbound
    · -- nobody else is about to run it
      exact absurd (hx'.one hex hb.ex ▸ hb) hafter

theorem bounded_claim (hB : P.Bounded id) (h' : Reachable Orderly (fresh m now) P') (hm : m.Quiet)
    (hP : P.Sound) (hd : P.Happens d P') (hclaim : d.Claims id) : P'.Bounded id := by
  obtain ⟨_, j, stamp, _, _, _, _, hrow, hpending, hfiles⟩ := (hP.filing hd).of_claims hclaim
  have hruns := runs_of_files h' hm hP hd hfiles.files_self
  have hresets : P'.resets id = P.resets id := resets_of_none hd (not_resets_of_runs hclaim.1)
  have hrow' := hd.row_of_files hfiles
  rw [← hd.memory_eq.2] at hrow
  have hbound := hB.idle hrow (by simp [hpending])
  rw [← hruns, ← hresets] at hbound
  refine ⟨fun hno => ?_, fun hr hstatus => ?_, fun hr _ => ?_, fun _ hr => ?_⟩
  · rw [hrow'] at hno
    simp at hno
  · obtain rfl := Option.some.inj (hrow'.symm.trans hr)
    exact absurd rfl hstatus
  · obtain rfl := Option.some.inj (hrow'.symm.trans hr)
    exact Nat.le_succ_of_le hbound
  · obtain rfl := Option.some.inj (hrow'.symm.trans hr)
    exact hbound

/-- A reset covers the run that nobody will record. -/
theorem bounded_reset (hB : P.Bounded id) (h' : Reachable Orderly (fresh m now) P') (hm : m.Quiet)
    (hP : P.Sound) (hd : P.Happens d P') (hreset : d.Resets id)
    (hidle : ∀ u, ¬ P.Executes u id) : P'.Bounded id := by
  obtain ⟨_, j, stamp, _, _, _, _, hrow, hrunning, hfiles⟩ := (hP.filing hd).of_resets hreset
  have hruns := runs_of_files h' hm hP hd hfiles.files_self
  have hresets : P'.resets id = P.resets id + 1 := by
    rw [resets_happens hd, if_pos (Deed.resets_iff.mpr hreset)]
  have hrow' := hd.row_of_files hfiles
  rw [← hd.memory_eq.2] at hrow
  have hbound := hB.running hrow hrunning
  rw [← hruns, Nat.add_assoc, ← hresets] at hbound
  refine ⟨fun hno => ?_, fun hr _ => ?_, fun hr hstatus => ?_, fun {u _} hb => ?_⟩
  · rw [hrow'] at hno
    simp at hno
  · obtain rfl := Option.some.inj (hrow'.symm.trans hr)
    exact hbound
  · obtain rfl := Option.some.inj (hrow'.symm.trans hr)
    simp at hstatus
  · rcases hb.ex.of_happens hd with hex | ⟨_, hclaim⟩
    · exact absurd hex (hidle u)
    · exact absurd hreset (not_resets_of_runs hclaim.1)

/-- The end of an attempt is recorded: the run that went on is a try of the row. -/
theorem bounded_conclude {v : Job} {how : Except ActionError Json} {c : Changes}
    (hB : P.Bounded id) (h : Reachable Orderly (fresh m now) P)
    (h' : Reachable Orderly (fresh m now) P') (hm : m.Quiet) (hd : P.Happens d P')
    (hc : P.Concludes d id v r how c) (hwf : r.WellFormed) : P'.Bounded id := by
  have hP := h.sound hm
  have hx : P.Exclusive := h.exclusive hm fun _ _ h => h
  obtain ⟨rfl, hrun⟩ := (h.current hm hd hc).resolve_left (h.not_overtaken hm hd)
  have hruns := runs_of_files h' hm hP hd hc.files.files_self
  have hresets : P'.resets id = P.resets id :=
    resets_of_none hd (not_resets_of_runs (by rw [hc.runs]; rfl))
  have hrow := hc.row
  have hrow' := hd.row_of_files hc.files
  rw [← hd.memory_eq.2] at hrow
  have hroom := UInt32.lt_iff_toNat_lt.mp (hwf.waits (Or.inr hrun)).1
  have htrys : (c.overwrite v).trys.toNat = v.trys.toNat + 1 := by
    show (c.trys.getD v.trys).toNat = _
    rw [hc.settles.trys]
    exact Job.toNat_nextAttempt_of_lt hroom
  have hbound := hB.running hrow hrun
  rw [← hruns, ← hresets, Nat.add_right_comm, ← htrys] at hbound
  refine ⟨fun hno => ?_, fun hr _ => ?_, fun hr hstatus => ?_, fun {u _} hb => ?_⟩
  · rw [hrow'] at hno
    simp at hno
  · obtain rfl := Option.some.inj (hrow'.symm.trans hr)
    exact hbound
  · obtain rfl := Option.some.inj (hrow'.symm.trans hr)
    have hlead := hc.leadsTo
    rw [hstatus] at hlead
    exact absurd hlead Bool.false_ne_true
  · -- the unit is over, and nobody else was at the job
    have hover := h'.not_executes_of_concludes hm hP hd hc
    rcases hb.ex.of_happens hd with hex | ⟨hu, _⟩
    · obtain rfl := hx.one hex (h.executes_of_concludes hm hd hc)
      exact absurd hb.ex hover
    · exact absurd (hu ▸ hb.ex) hover

theorem bounded_insert (hB : P.Bounded id) (h' : Reachable ρ (fresh m now) P') (hm : m.Quiet)
    (hd : P.Happens d P') (htask : d.task.runs = none) (hno : P.memory.rows.get? id = none) :
    P'.Bounded id := by
  have hnone : P'.runs id = 0 := by
    rw [runs_happens hd, hB.absent hno, Deed.attempt?_eq_none fun i hi => ?_]
    · rfl
    · obtain ⟨_, _, hruns, _⟩ := h'.invokes hm hd hi
      rw [htask] at hruns
      simp at hruns
  have hzero (n : Nat) : P'.runs id ≤ n := hnone ▸ Nat.zero_le n
  exact ⟨fun _ => hnone, fun _ _ => hzero _, fun _ _ => hzero _, fun _ _ => hzero _⟩

theorem bounded_happens (hB : P.Bounded id) (hT : P.Tracked id)
    (h : Reachable Orderly (fresh m now) P) (h' : Reachable Orderly (fresh m now) P')
    (hm : m.Quiet) (hd : P.Happens d P') (horder : Orderly P P') : P'.Bounded id := by
  have hP := h.sound hm
  have hfiling := hP.filing hd
  rcases hfiling.row_cases id with
    ⟨hfile, hsame⟩ | ⟨r, j, hfile, _⟩ | ⟨_, habsent, _, _, _, _, _, htask, _⟩
  · rw [← hd.memory_eq.1, ← hd.memory_eq.2] at hsame
    exact bounded_same hB h h' hm hd hfile hsame
  · rcases hfiling.files_cases hfile with hclaim | hreset | ⟨v, r', how, c, hc⟩
    · exact bounded_claim hB h' hm hP hd hclaim
    · exact bounded_reset hB h' hm hP hd hreset fun u => horder d id u hd hreset
    · exact bounded_conclude hB h h' hm hd hc (hT.kept (hd.memory_eq.2 ▸ hc.row)).wellFormed
  · rw [← hd.memory_eq.2] at habsent
    exact bounded_insert hB h' hm hd (by rw [htask]; rfl) habsent

/-! ## whole runs -/

theorem Reachable.bounded (h : Reachable Orderly (fresh {} now) P) (id : JobId) :
    P.Bounded id := by
  have hm := Memory.quiet_empty
  refine h.invariant (I := fun P => P.Bounded id) ?_ fun P P' hP hB hs hr => ?_
  · exact ⟨fun _ => rfl, fun hr => by simp at hr, fun hr => by simp at hr,
      fun _ hr => by simp at hr⟩
  · have hP' : Reachable Orderly (fresh {} now) P' := .step hP hs hr
    rcases (hP.sound hm).step_cases hs with ⟨d, hd⟩ | ⟨hpast, hrows, hat⟩
    · exact bounded_happens hB (hP.tracked id) hP hP' hm hd hr
    · exact bounded_quiet hB hpast hrows hat

/-- **Runs are within the budget.**  In every order of the steps of any units over a store that was
empty, with any answers and with units abandoned anywhere, if no job is put back while a unit
executes it: the action of a job has been run at most as often as its row has used up tries, and
once more for each reset, and once more while it is running.  So it is run at most `tryMax` times,
and once more for each reset; and not at all before there is a row. -/
theorem runs_within_budget (h : Reachable Orderly (fresh {} now) P) (id : JobId) :
    (P.memory.rows.get? id = none → P.runs id = 0) ∧
    ∀ r, P.memory.rows.get? id = some r →
      P.runs id ≤ r.trys.toNat + P.resets id + (if r.status = .running then 1 else 0) ∧
      P.runs id ≤ r.tryMax.toNat + P.resets id := by
  have hB := h.bounded id
  refine ⟨hB.absent, fun r hr => ?_⟩
  have hwf := ((h.tracked id).kept hr).wellFormed
  by_cases hrun : r.status = .running
  · have hbound := hB.running hr hrun
    have hroom := UInt32.lt_iff_toNat_lt.mp (hwf.waits (Or.inr hrun)).1
    rw [if_pos hrun]
    exact ⟨hbound, by omega⟩
  · have hbound := hB.idle hr hrun
    have hroom := UInt32.le_iff_toNat_le.mp hwf.trys_le
    rw [if_neg hrun]
    exact ⟨hbound, by omega⟩

/-- A job for one attempt is run, and its unit is lost; it is put back, and run again. -/
theorem one_attempt_run_twice : ∃ P, Reachable Orderly (fresh {} .epoch) P ∧
    P.runs (World.madeId 1) = 2 ∧ P.resets (World.madeId 1) = 1 ∧
    ∃ r, P.memory.rows.get? (World.madeId 1) = some r ∧ r.tryMax = 1 ∧
      P.runs (World.madeId 1) ≤ r.tryMax.toNat + P.resets (World.madeId 1) := by
  let run : Task := .run ⟨["echo"]⟩ "worker" (World.madeId 1) 1000
  let script : List Cue := [.start (.create ⟨["echo"]⟩ oneAttempt)] ++ goes 0 3 ++
    [.start run] ++ goes 1 7 ++ [.drop 1, .start (.clean "worker" (World.madeId 1))] ++ goes 2 5 ++
    [.start run] ++ goes 3 7
  obtain ⟨P, hP, hall⟩ := reachable_of_play (P := fresh {} .epoch) settled script
    (fun P => (P.runs (World.madeId 1), P.resets (World.madeId 1),
      (P.memory.rows.get? (World.madeId 1)).map Job.tryMax))
    (a := (2, 1, some 1)) (fun _ _ => orderly_of_settled) (by decide +kernel)
  obtain ⟨hruns, hall⟩ := Prod.mk.inj hall
  obtain ⟨hresets, hmax⟩ := Prod.mk.inj hall
  obtain ⟨r, hr, hmax⟩ := Option.map_eq_some_iff.mp hmax
  exact ⟨P, hP, hruns, hresets, r, hr, hmax, ((runs_within_budget hP (World.madeId 1)).2 r hr).2⟩

end Pool

end JobEngine
