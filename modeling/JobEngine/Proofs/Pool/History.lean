import JobEngine.Proofs.Pool.Exclusion

/-!
# The history of a job

A unit that records how its attempt ended does so for the record that it had loaded, and does not
look at the row again.  If the job was put back meanwhile and taken by another unit, the outcome is
written over a later one, and then the row may go back.  Nothing else makes it go back.

* `Job.Forward`         a change of a record that does not go back;
* `Deed.Overtaken`      the end of an attempt at a job that others filed since the unit's claim;
* `Reachable.current`   an outcome is overtaken, or finds what its unit has loaded;
* `history_goes_forward`         only an outcome that is overtaken can make a row go back;
* `finished_job_pending_again`   and it can.
-/

namespace JobEngine

/-! ## forward -/

/-- A later version of a record. -/
structure Job.Onward (r r' : Job) : Prop where
  settled : r.status.terminal → r' = r
  trys : r.trys ≤ r'.trys
  runAt : r.runAt ≤ r'.runAt

/-- The next version of a record. -/
structure Job.Forward (r r' : Job) : Prop extends r.Onward r' where
  edge : r'.status = r.status ∨ r.status.leadsTo r'.status

/-- The outcome `r'` of an attempt takes back what the record `r` says. -/
def Job.Undone (r r' : Job) : Prop :=
  (r.status.terminal ∧ r' ≠ r) ∨ (r.status = .pending ∧ r'.status ≠ .pending) ∨
    r'.trys < r.trys ∨ r'.runAt < r.runAt

namespace Job

variable {r r' r'' v : Job} {how : Except ActionError Json} {c : Changes}

theorem Onward.refl (r : Job) : r.Onward r :=
  ⟨fun _ => rfl, UInt32.le_refl _, Instant.le_refl _⟩

theorem Onward.trans (h : r.Onward r') (h' : r'.Onward r'') : r.Onward r'' where
  settled hr := by
    obtain rfl := h.settled hr
    exact h'.settled hr
  trys := UInt32.le_trans h.trys h'.trys
  runAt := Instant.le_trans h.runAt h'.runAt

theorem Forward.refl (r : Job) : r.Forward r := ⟨.refl r, Or.inl rfl⟩

theorem forward_claim (h : r.status = .pending) (t : Instant) :
    r.Forward { r with status := .running, updated := t } where
  settled hr := by rw [h] at hr; exact absurd hr Bool.false_ne_true
  trys := UInt32.le_refl _
  runAt := Instant.le_refl _
  edge := Or.inr (by rw [h]; rfl)

theorem forward_reset (h : r.status = .running) (t : Instant) :
    r.Forward { r with status := .pending, updated := t } where
  settled hr := by rw [h] at hr; exact absurd hr Bool.false_ne_true
  trys := UInt32.le_refl _
  runAt := Instant.le_refl _
  edge := Or.inr (by rw [h]; rfl)

theorem trys_le_nextAttempt (h : v.trys ≤ v.tryMax) : v.trys ≤ v.nextAttempt := by
  rw [UInt32.le_iff_toNat_le] at h ⊢
  rw [toNat_nextAttempt]
  omega

theorem runAt_le_overwrite (hset : Settles v how c) : v.runAt ≤ (c.overwrite v).runAt := by
  show v.runAt ≤ c.runAt.getD v.runAt
  cases hset with
  | finished => exact Instant.le_refl _
  | exhausted => exact Instant.le_refl _
  | retry e t h => exact (of_onFailure_retry h).2

theorem forward_settles (hset : Settles v how c) (hrun : v.status = .running)
    (hroom : v.trys ≤ v.tryMax) : v.Forward (c.overwrite v) where
  settled hv := by rw [hrun] at hv; exact absurd hv Bool.false_ne_true
  trys := by
    show v.trys ≤ c.trys.getD v.trys
    rw [hset.trys]
    exact trys_le_nextAttempt hroom
  runAt := runAt_le_overwrite hset
  edge := by
    obtain ⟨new, hnew, hlead⟩ := hset.leadsTo
    right
    rw [hrun, show (c.overwrite v).status = c.status.getD v.status from rfl, hnew]
    exact hlead

/-- An outcome goes forward unless it takes something back. -/
theorem not_forward_iff (h : r'.status ≠ .running) : ¬ r.Forward r' ↔ r.Undone r' := by
  constructor
  · intro hnot
    by_cases hundone : r.Undone r'
    · exact hundone
    have hsettled : r.status.terminal → r' = r :=
      fun hr => Decidable.of_not_not fun hne => hundone (Or.inl ⟨hr, hne⟩)
    have hpending : r.status = .pending → r'.status = .pending :=
      fun hr => Decidable.of_not_not fun hne => hundone (Or.inr (Or.inl ⟨hr, hne⟩))
    have htrys : r.trys ≤ r'.trys :=
      UInt32.not_lt.mp fun hlt => hundone (Or.inr (Or.inr (Or.inl hlt)))
    have hdue : r.runAt ≤ r'.runAt :=
      Decidable.of_not_not fun hlt => hundone (Or.inr (Or.inr (Or.inr hlt)))
    refine absurd ⟨⟨hsettled, htrys, hdue⟩, ?_⟩ hnot
    cases hr : r.status with
    | pending => exact Or.inl (hpending hr)
    | running =>
      right
      cases hr' : r'.status with
      | running => exact absurd hr' h
      | pending | finished | error => rfl
    | finished | error => exact Or.inl (by rw [hsettled (by rw [hr]; rfl), hr])
  · rintro (⟨hr, hne⟩ | ⟨hr, hne⟩ | htrys | hdue) hforward
    · exact hne (hforward.settled hr)
    · rcases hforward.edge with e | e
      · exact hne (e.trans hr)
      · rw [hr] at e
        cases hr' : r'.status with
        | running => exact h hr'
        | pending | finished | error =>
          rw [hr'] at e
          exact absurd e Bool.false_ne_true
    · exact UInt32.not_lt.mpr hforward.trys htrys
    · exact hdue hforward.runAt

end Job

/-- The deed ends an attempt at a job that was filed since the unit had claimed it. -/
def Deed.Overtaken (d : Deed) (xs : List Deed) (id : JobId) : Prop :=
  d.ends id ∧ ∃ as e bs, xs = as ++ e :: bs ∧ e.unit = d.unit ∧ e.Claims id ∧
    ∃ f ∈ bs, (f.files id).isSome

namespace Pool

variable {P P' Q : Pool} {d : Deed} {id : JobId} {ρ : Pool → Pool → Prop} {m : Memory}
  {now : Instant} {r : Job}

/-! ## outcomes that find their job as it was -/

/-- The outcome of an attempt is overtaken, or finds what its unit has loaded. -/
theorem Reachable.current {v : Job} {how : Except ActionError Json} {c : Changes}
    (h : Reachable ρ (fresh m now) P) (hm : m.Quiet) (hd : P.Happens d P')
    (hc : P.Concludes d id v r how c) :
    d.Overtaken P.past id ∨ v = r ∧ r.status = .running := by
  obtain ⟨w, p, hu, _, hst, hruns⟩ :=
    (h.executes_iff hm).mp (h.executes_of_concludes hm hd hc)
  obtain ⟨w', _, hu', htask, _⟩ := hd.at_before
  obtain rfl := hu.eq hu'
  obtain ⟨xs, ys, e, j, hholds⟩ := h.holds hm hu hst hruns
  by_cases hfiled : ∃ f ∈ ys, (f.files id).isSome
  · exact Or.inl ⟨hc.ends, xs, e, ys, hholds.past, hholds.unit, hholds.claims, hfiled⟩
  · have hnone : ∀ f ∈ ys, f.files id = none :=
      fun f hf => Option.not_isSome_iff_eq_none.mp fun hfile => hfiled ⟨f, hf, hfile⟩
    obtain ⟨hrow, hview⟩ := hholds.row hnone
    obtain ⟨s, hrec, _⟩ := hc.stage
    rw [htask, hrec] at hview
    obtain rfl : v = j := hview v rfl
    obtain rfl : v = r := Option.some.inj (hrow.symm.trans (hd.memory_eq.2 ▸ hc.row))
    exact Or.inr ⟨rfl, hholds.status⟩

/-- No row has used up more attempts than it allows. -/
theorem Reachable.room (h : Reachable ρ (fresh m now) P) (hm : m.Quiet)
    (hroom : ∀ r, m.rows.get? id = some r → r.trys ≤ r.tryMax) :
    ∀ r, P.memory.rows.get? id = some r → r.trys ≤ r.tryMax := by
  refine h.invariant (I := fun P => ∀ r, P.memory.rows.get? id = some r → r.trys ≤ r.tryMax)
    hroom fun P P' hP hall hs _ => ?_
  rcases (hP.sound hm).step_cases hs with ⟨d, hd⟩ | ⟨_, hrows, _⟩
  · have hfiling := (hP.sound hm).filing hd
    rw [hd.memory_eq.1]
    rw [hd.memory_eq.2] at hall
    intro r hr
    rcases hfiling.row_cases id with
      ⟨_, hsame⟩ | ⟨r₀, j, hfile, hbefore, hafter⟩ | ⟨_, _, _, _, _, _, j, _, hj, hafter⟩
    · exact hall r (hsame.symm.trans hr)
    · obtain rfl := Option.some.inj (hafter.symm.trans hr)
      rcases hfiling.files_cases hfile with hclaim | hreset | ⟨v, r', how, c, hc⟩
      · obtain ⟨_, j₀, _, _, _, _, _, hrow, _, hfiles⟩ := hfiling.of_claims hclaim
        obtain ⟨_, rfl⟩ := hfiles.eq_of_files hfile
        exact hall j₀ hrow
      · obtain ⟨_, j₀, _, _, _, _, _, hrow, _, hfiles⟩ := hfiling.of_resets hreset
        obtain ⟨_, rfl⟩ := hfiles.eq_of_files hfile
        exact hall j₀ hrow
      · obtain ⟨_, rfl⟩ := hc.files.eq_of_files hfile
        have htrys : (c.overwrite r').trys = v.nextAttempt := by
          show c.trys.getD r'.trys = _
          rw [hc.settles.trys]
          rfl
        rw [htrys]
        exact UInt32.not_lt.mp fun hlt => hc.fits ⟨_, hc.settles.trys, hlt⟩
    · obtain rfl := Option.some.inj (hafter.symm.trans hr)
      rw [(NewJob.of_toJob_eq_ok hj).2.2.1]
      exact UInt32.zero_le
  · rw [hrows]
    exact hall

/-- A deed whose outcome, if it records one, is not overtaken. -/
theorem Filing.forward (h : P.Filing d) (hr : d.before.rows.get? id = some r)
    (hcurrent : ∀ v how c, P.Concludes d id v r how c → v = r ∧ r.status = .running) :
    ∃ r', d.after.rows.get? id = some r' ∧ r.runAt ≤ r'.runAt ∧
      (r.trys ≤ r.tryMax → r.Forward r') := by
  rcases h.row_cases id with ⟨_, hsame⟩ | ⟨r₀, j, hfile, hbefore, hafter⟩ | ⟨_, habsent, _⟩
  · exact ⟨r, hsame.trans hr, Instant.le_refl _, fun _ => .refl r⟩
  · obtain rfl := Option.some.inj (hbefore.symm.trans hr)
    refine ⟨j, hafter, ?_⟩
    rcases h.files_cases hfile with hclaim | hreset | ⟨v, r', how, c, hc⟩
    · obtain ⟨_, j₀, stamp, _, _, _, _, hrow, hpending, hfiles⟩ := h.of_claims hclaim
      obtain ⟨_, rfl⟩ := hfiles.eq_of_files hfile
      obtain rfl := Option.some.inj (hbefore.symm.trans hrow)
      have hforward := Job.forward_claim hpending stamp
      exact ⟨hforward.runAt, fun _ => hforward⟩
    · obtain ⟨_, j₀, stamp, _, _, _, _, hrow, hrunning, hfiles⟩ := h.of_resets hreset
      obtain ⟨_, rfl⟩ := hfiles.eq_of_files hfile
      obtain rfl := Option.some.inj (hbefore.symm.trans hrow)
      have hforward := Job.forward_reset hrunning stamp
      exact ⟨hforward.runAt, fun _ => hforward⟩
    · obtain ⟨_, rfl⟩ := hc.files.eq_of_files hfile
      obtain rfl := Option.some.inj (hbefore.symm.trans hc.row)
      obtain ⟨rfl, hrun⟩ := hcurrent v how c hc
      exact ⟨Job.runAt_le_overwrite hc.settles, Job.forward_settles hc.settles hrun⟩
  · rw [habsent] at hr
    simp at hr

/-! ## steps and runs -/

/-- A step makes a row go back exactly if it writes an overtaken outcome that takes back what the
row says. -/
theorem Reachable.forward_or_overtaken (h : Reachable ρ (fresh m now) P) (hm : m.Quiet)
    (hroom : ∀ r, m.rows.get? id = some r → r.trys ≤ r.tryMax) (hs : P.Step P')
    (hr : P.memory.rows.get? id = some r) :
    ∃ r', P'.memory.rows.get? id = some r' ∧
      (¬ r.Forward r' ↔ r.Undone r' ∧ ∃ d, P.Happens d P' ∧ d.Overtaken P.past id) := by
  have hP := h.sound hm
  have hends {d : Deed} {r' : Job} (hd : P.Happens d P') (hends : d.ends id = true)
      (hr' : P'.memory.rows.get? id = some r') : r'.status ≠ .running := by
    obtain ⟨_, hany⟩ := Bool.and_eq_true_iff.mp hends
    obtain ⟨j, hfile, hj⟩ := (Option.any_eq_true _ _).mp hany
    have hafter := hd.memory_eq.1 ▸ (hP.filing hd).after_of_files hfile
    obtain rfl := Option.some.inj (hr'.symm.trans hafter)
    exact bne_iff_ne.mp hj
  have hback {r' : Job} (hr' : P'.memory.rows.get? id = some r') :
      (r.Undone r' ∧ ∃ d, P.Happens d P' ∧ d.Overtaken P.past id) → ¬ r.Forward r' := by
    rintro ⟨hundone, d, hd, hover⟩
    exact (Job.not_forward_iff (hends hd hover.1 hr')).mpr hundone
  rcases hP.step_cases hs with ⟨d, hd⟩ | ⟨_, hrows, _⟩
  · have hfiling := hP.filing hd
    by_cases hover : d.Overtaken P.past id
    · obtain ⟨r', hr', _⟩ := hfiling.keeps (hd.memory_eq.2 ▸ hr)
      have hr' : P'.memory.rows.get? id = some r' := hd.memory_eq.1 ▸ hr'
      exact ⟨r', hr', fun hnot =>
        ⟨(Job.not_forward_iff (hends hd hover.1 hr')).mp hnot, d, hd, hover⟩, hback hr'⟩
    · have hcurrent (v : Job) (how : Except ActionError Json) (c : Changes)
          (hc : P.Concludes d id v r how c) :
          v = r ∧ r.status = .running := (h.current hm hd hc).resolve_left hover
      obtain ⟨r', hr', _, hforward⟩ := hfiling.forward (hd.memory_eq.2 ▸ hr) hcurrent
      have hforward := hforward (h.room hm hroom r hr)
      have hr' : P'.memory.rows.get? id = some r' := hd.memory_eq.1 ▸ hr'
      exact ⟨r', hr', fun hnot => absurd hforward hnot, hback hr'⟩
  · have hr' : P'.memory.rows.get? id = some r := hrows ▸ hr
    exact ⟨r, hr', fun hnot => absurd (.refl r) hnot, hback hr'⟩

/-- Where no job is put back while it is executed, no outcome is overtaken. -/
theorem Reachable.not_overtaken (h : Reachable Orderly (fresh m now) P) (hm : m.Quiet)
    (hd : P.Happens d P') : ¬ d.Overtaken P.past id := by
  rintro ⟨hends, as, e, bs, hpast, heu, hclaim, f, hf, hfile⟩
  obtain ⟨hruns, hany⟩ := Bool.and_eq_true_iff.mp hends
  obtain ⟨j, hj, hstatus⟩ := (Option.any_eq_true _ _).mp hany
  rcases ((h.sound hm).filing hd).files_cases hj with hclaim' | hreset | ⟨v, r, how, c, hc⟩
  · obtain ⟨_, j', hj', hrunning⟩ := hclaim'
    obtain rfl := Option.some.inj (hj.symm.trans hj')
    rw [hrunning] at hstatus
    simp at hstatus
  · have hcleans := hreset.1
    cases ht : d.task <;> simp [ht, Task.runs, Task.cleans] at hruns hcleans
  · have hx : P.Exclusive := h.exclusive hm fun _ _ h => h
    have hnone := hx.own (h.executes_of_concludes hm hd hc) hpast heu hclaim f hf
    rw [hnone] at hfile
    simp at hfile

theorem Reachable.runAt_happens (h : Reachable Orderly (fresh m now) P) (hm : m.Quiet)
    (hd : P.Happens d P') (hr : P.memory.rows.get? id = some r) :
    ∃ r', P'.memory.rows.get? id = some r' ∧ r.runAt ≤ r'.runAt := by
  rw [hd.memory_eq.2] at hr
  rw [hd.memory_eq.1]
  obtain ⟨r', hr', hdue, _⟩ := ((h.sound hm).filing hd).forward hr fun v how c hc =>
    (h.current hm hd hc).resolve_left (h.not_overtaken hm hd)
  exact ⟨r', hr', hdue⟩

theorem Reachable.runAt_onward (hQ : Reachable Orderly (fresh m now) Q) (hm : m.Quiet)
    (h : Reachable Orderly Q P) (hr : Q.memory.rows.get? id = some r) :
    ∃ r', P.memory.rows.get? id = some r' ∧ r.runAt ≤ r'.runAt := by
  induction h with
  | refl => exact ⟨r, hr, Instant.le_refl _⟩
  | step h hs hρ ih =>
    obtain ⟨r', hr', hdue⟩ := ih
    rcases hs.cases_past with ⟨d, hd⟩ | ⟨_, hrows⟩
    · obtain ⟨r'', hr'', hdue'⟩ := (hQ.trans h).runAt_happens hm hd hr'
      exact ⟨r'', hr'', Instant.le_trans hdue hdue'⟩
    · exact ⟨r', hrows ▸ hr', hdue⟩

theorem Reachable.forward (h : Reachable Orderly (fresh m now) P) (hm : m.Quiet)
    (hroom : ∀ r, m.rows.get? id = some r → r.trys ≤ r.tryMax) (hs : P.Step P')
    (hr : P.memory.rows.get? id = some r) :
    ∃ r', P'.memory.rows.get? id = some r' ∧ r.Forward r' := by
  obtain ⟨r', hr', hiff⟩ := h.forward_or_overtaken hm hroom hs hr
  refine ⟨r', hr', Classical.byContradiction fun hnot => ?_⟩
  obtain ⟨_, d, hd, hover⟩ := hiff.mp hnot
  exact h.not_overtaken hm hd hover

/-- A row behind a whole run. -/
theorem Reachable.onward (hQ : Reachable Orderly (fresh m now) Q) (hm : m.Quiet)
    (hroom : ∀ r, m.rows.get? id = some r → r.trys ≤ r.tryMax) (h : Reachable Orderly Q P)
    (hr : Q.memory.rows.get? id = some r) :
    ∃ r', P.memory.rows.get? id = some r' ∧ r.Onward r' := by
  induction h with
  | refl => exact ⟨r, hr, .refl r⟩
  | step h hs hρ ih =>
    obtain ⟨r', hr', honward⟩ := ih
    obtain ⟨r'', hr'', hforward⟩ := (hQ.trans h).forward hm hroom hs hr'
    exact ⟨r'', hr'', honward.trans hforward.toOnward⟩

/-- **History goes forward where no outcome is overtaken.**  In every order of the steps of any
units, a step makes a row go back exactly if it writes the outcome of an attempt at a job that
somebody has filed since the unit's claim, and the outcome takes back what the row says.  Where no
job is put back while a unit executes it there is no such outcome: each step leads along the arrows
of the statuses, and behind any number of them what was finished or failed is as it was, and no job
has fewer attempts used up or is due earlier. -/
theorem history_goes_forward (hm : m.Quiet)
    (hroom : ∀ id r, m.rows.get? id = some r → r.trys ≤ r.tryMax) :
    (∀ P P' id r, Reachable anyhow (fresh m now) P → P.Step P' → P.memory.rows.get? id = some r →
      ∃ r', P'.memory.rows.get? id = some r' ∧
        (¬ r.Forward r' ↔ r.Undone r' ∧ ∃ d, P.Happens d P' ∧ d.Overtaken P.past id)) ∧
    (∀ P P' id r, Reachable Orderly (fresh m now) P → P.Step P' → P.memory.rows.get? id = some r →
      ∃ r', P'.memory.rows.get? id = some r' ∧ r.Forward r') ∧
    ∀ P Q id r, Reachable Orderly (fresh m now) P → Reachable Orderly P Q →
      P.memory.rows.get? id = some r → ∃ r', Q.memory.rows.get? id = some r' ∧ r.Onward r' :=
  ⟨fun _ _ id _ h hs hr => h.forward_or_overtaken hm (hroom id) hs hr,
    fun _ _ id _ h hs hr => h.forward hm (hroom id) hs hr,
    fun _ _ id _ h hQ hr => h.onward hm (hroom id) hQ hr⟩

theorem lone_room (id : JobId) (r : Job) (h : loneStore.rows.get? id = some r) :
    r.trys ≤ r.tryMax := by
  change Table.get? id [(lone.id, lone)] = some r at h
  rw [Table.get?_cons] at h
  split at h
  · exact Option.some.inj h ▸ by decide
  · simp at h

/-- A whole run of a unit alone. -/
theorem lone_finished : ∃ P, Reachable Orderly (fresh loneStore .epoch) P ∧
    ∃ r, P.memory.rows.get? lone.id = some r ∧ r.status = .finished ∧ lone.Onward r := by
  let script : List Cue := [.start loneRun] ++ goes 0 7 ++ [.go 0 (some (.ok .null))] ++ goes 0 5
  obtain ⟨P, hP, hstatus⟩ := reachable_of_play (P := fresh loneStore .epoch)
    (ρ := WithoutResets) (fun _ P => P.units.all fun w => w.task.cleans = false) script
    (fun P => (P.memory.rows.get? lone.id).map Job.status) (a := some .finished)
    (fun P P' h w hw => of_decide_eq_true (List.all_eq_true.mp h w hw)) (by decide +kernel)
  have hP : Reachable Orderly (fresh loneStore .epoch) P :=
    hP.mono fun _ _ => orderly_of_withoutResets
  obtain ⟨r, hr, honward⟩ :=
    (history_goes_forward loneStore_quiet lone_room).2.2 _ _ lone.id lone .refl hP rfl
  rw [hr] at hstatus
  exact ⟨P, hP, r, hr, Option.some.inj hstatus, honward⟩

/-- A unit is put back while it executes the job and another one finishes the job; then the first
one fails, and writes that the job is pending. -/
theorem finished_job_pending_again : ∃ P P', Reachable Steady (fresh loneStore .epoch) P ∧
    P.Step P' ∧ Steady P P' ∧ ∃ r r', P.memory.rows.get? lone.id = some r ∧
      P'.memory.rows.get? lone.id = some r' ∧ r.status = .finished ∧ r'.status = .pending := by
  let script : List Cue := [.start loneRun, .start loneClean, .start loneRun] ++ goes 0 7 ++
    goes 1 5 ++ goes 2 7 ++ [.go 2 (some (.ok .null))] ++ goes 2 5 ++ goes 0 7
  obtain ⟨P, hP, hlast⟩ := reachable_of_play (P := fresh loneStore .epoch) (ρ := Steady)
    (fun P P' => P.now ≤ P'.now) script
    (fun P => P.past.getLast?.map fun d => ((d.before.rows.get? lone.id).map Job.status,
      (d.after.rows.get? lone.id).map Job.status))
    (a := some (some .finished, some .pending))
    (fun P P' h => of_decide_eq_true (p := P.now ≤ P'.now) h) (by decide +kernel)
  obtain ⟨d, hd, hstatus⟩ := Option.map_eq_some_iff.mp hlast
  obtain ⟨hbefore, hafter⟩ := Prod.mk.inj hstatus
  obtain ⟨r, hr, hfinished⟩ := Option.map_eq_some_iff.mp hbefore
  obtain ⟨r', hr', hpending⟩ := Option.map_eq_some_iff.mp hafter
  obtain ⟨xs, hsplit⟩ := List.getLast?_eq_some_iff.mp hd
  obtain ⟨Q, Q', hQ, _, happens, hsteady, _⟩ := hP.deed rfl hsplit
  exact ⟨Q, Q', hQ, .answer happens, hsteady, r, r', happens.memory_eq.2 ▸ hr,
    happens.memory_eq.1 ▸ hr', hfinished, hpending⟩

end Pool

end JobEngine
