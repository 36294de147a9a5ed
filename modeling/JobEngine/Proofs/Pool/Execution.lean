import JobEngine.Proofs.Pool.Rows

/-!
# From a claim to the end of its unit

A unit executes a job only behind its own committed claim, and until another commit files the job
the stored row is the record that the unit claimed and has loaded.

* `Deed.Claims`, `Deed.Resets`   the commits that take a job and that put it back;
* `Deed.ends`                    the commits that record how an attempt ended;
* `Moves.executing`              how a unit comes to execute, and goes on with it;
* `Pool.Holds`                   what is known of a unit that executes;
* `Reachable.holds`              it is known of all of them;
* `Reachable.claim_of_invokes`   no action is invoked without a claim;
* `Pool.Executes`                a unit is between its claim and its end;
* `Reachable.executes_iff`       its stage tells whether it is.
-/

namespace JobEngine

/-- The deed commits a claim of the job. -/
def Deed.Claims (d : Deed) (id : JobId) : Prop :=
  d.task.runs.isSome ∧ ∃ j, d.files id = some j ∧ j.status = .running

/-- The deed commits a reset of the job. -/
def Deed.Resets (d : Deed) (id : JobId) : Prop := d.task.cleans ∧ ∃ j, d.files id = some j

/-- The deed records how an attempt at the job ended. -/
def Deed.ends (id : JobId) (d : Deed) : Bool :=
  d.task.runs.isSome && (d.files id).any (·.status != .running)

section
variable {t : Task} {st st' : Stage} {h : Heard}

theorem Moves.executing (hmove : Moves t st h st') (hex : st'.Executing) :
    (st.Executing ∧ st'.view = st.view) ∨
    (∃ s j c, st = .marked s j c ∧ h = ⟨.store (.commit s), .ok ()⟩ ∧ st' = .claimed) ∨
    (∃ v id, st = .claimed ∧ t.runs = some id ∧ h = ⟨.store (.read id), .ok (some v)⟩ ∧
      st' = .loaded v) := by
  cases hmove with
  | stays => exact Or.inl ⟨hex, rfl⟩
  | claims => exact Or.inr (Or.inl ⟨_, _, _, rfl, rfl, rfl⟩)
  | loads hruns => exact Or.inr (Or.inr ⟨_, _, rfl, hruns, rfl, rfl⟩)
  | invokes | reenters | givesUp | settles => exact Or.inl ⟨rfl, rfl⟩
  | _ => exact absurd hex Bool.false_ne_true

def Stage.Late (st : Stage) : Prop := st.Executing ∨ st = .ended

theorem Moves.late (hmove : Moves t st h st') (hlate : st.Late) : st'.Late := by
  cases hmove with
  | stays => exact hlate
  | ends => exact Or.inr rfl
  | claims => exact Or.inl trivial
  | loads | invokes | reenters | givesUp | settles => exact Or.inl rfl
  | _ => rcases hlate with h | h <;> simp [Stage.Executing, Stage.view] at h

end

namespace Pool

section
variable {P : Pool} {d : Deed} {id : JobId}

/-- All of a claim: pending becomes running. -/
theorem Filing.of_claims (h : P.Filing d) (hc : d.Claims id) : ∃ s j stamp c,
    P.stage d.unit d.task = .marked s j c ∧ d.heard = ⟨.store (.commit s), .ok ()⟩ ∧
    d.task.runs = some id ∧ d.before.rows.get? id = some j ∧ j.status = .pending ∧
    d.FilesOnly id { j with status := .running, updated := stamp } := by
  obtain ⟨hruns, j', hfile, hj'⟩ := hc
  cases h with
  | nothing _ hnone => rw [hnone] at hfile; simp at hfile
  | insert _ _ _ _ hnone => rw [hnone] at hfile; simp at hfile
  | @mark s j c hst hh hjob hmark hrow hfiles =>
    obtain ⟨rfl, _⟩ := hfiles.eq_of_files hfile
    obtain ⟨hold, stamp, rfl⟩ := hmark.of_runs hruns
    exact ⟨s, j, stamp, _, hst, hh, Task.runs_of_job hjob hruns, hrow, hold, hfiles⟩
  | @outcome s v r how c hst hh _ hset _ _ hfiles =>
    -- no attempt ends with a job that runs
    obtain ⟨rfl, rfl⟩ := hfiles.eq_of_files hfile
    obtain ⟨new, hnew, hlead⟩ := hset.leadsTo
    rw [show (c.overwrite r).status = c.status.getD r.status from rfl, hnew] at hj'
    rw [show new = .running from hj'] at hlead
    exact absurd hlead Bool.false_ne_true

/-- The deed commits how an attempt at job `v` ended, over the row `r`. -/
structure Concludes (P : Pool) (d : Deed) (id : JobId) (v r : Job)
    (how : Except ActionError Json) (c : Changes) : Prop where
  stage : ∃ s, P.stage d.unit d.task = .recorded v how s c ∧
    d.heard = ⟨.store (.commit s), .ok ()⟩
  runs : d.task.runs = some id
  view_id : v.id = id
  settles : Settles v how c
  row : d.before.rows.get? id = some r
  fits : ¬ c.Oversteps r
  files : d.FilesOnly id (c.overwrite r)

/-- What ends an attempt leaves a status that may follow. -/
theorem Concludes.leadsTo {v r : Job} {how : Except ActionError Json} {c : Changes}
    (h : P.Concludes d id v r how c) :
    Status.running.leadsTo (c.overwrite r).status := by
  obtain ⟨new, hnew, hlead⟩ := h.settles.leadsTo
  rw [show (c.overwrite r).status = c.status.getD r.status from rfl, hnew]
  exact hlead

theorem Concludes.ends {v r : Job} {how : Except ActionError Json} {c : Changes}
    (h : P.Concludes d id v r how c) : d.ends id = true := by
  have hlead := h.leadsTo
  have hne : (c.overwrite r).status ≠ .running := by
    intro e
    rw [e] at hlead
    exact absurd hlead Bool.false_ne_true
  simp [Deed.ends, h.runs, h.files.files, hne]

/-- What a commit files is a claim, a reset or the end of an attempt. -/
theorem Filing.files_cases {j : Job} (h : P.Filing d) (hfile : d.files id = some j) :
    d.Claims id ∨ d.Resets id ∨ ∃ v r how c, P.Concludes d id v r how c := by
  cases h with
  | nothing _ hnone => rw [hnone] at hfile; simp at hfile
  | insert _ _ _ _ hnone => rw [hnone] at hfile; simp at hfile
  | @mark s j c hst hh hjob hmark hrow hfiles =>
    obtain ⟨rfl, rfl⟩ := hfiles.eq_of_files hfile
    rcases Task.runs_or_cleans hjob with hruns | hcleans
    · have hruns : d.task.runs.isSome := by rw [hruns]; rfl
      obtain ⟨_, stamp, rfl⟩ := hmark.of_runs hruns
      exact Or.inl ⟨hruns, _, hfile, rfl⟩
    · exact Or.inr (Or.inl ⟨hcleans, _, hfile⟩)
  | @outcome s v r how c hst hh hruns hset hrow hover hfiles =>
    obtain ⟨rfl, rfl⟩ := hfiles.eq_of_files hfile
    exact Or.inr (Or.inr ⟨v, r, how, c, ⟨s, hst, hh⟩, hruns, rfl, hset, hrow, hover, hfiles⟩)

/-- All of a reset: running becomes pending. -/
theorem Filing.of_resets (h : P.Filing d) (hr : d.Resets id) : ∃ s j stamp c,
    P.stage d.unit d.task = .marked s j c ∧ d.heard = ⟨.store (.commit s), .ok ()⟩ ∧
    d.task.job = some id ∧ d.before.rows.get? id = some j ∧ j.status = .running ∧
    d.FilesOnly id { j with status := .pending, updated := stamp } := by
  obtain ⟨hcleans, j', hfile⟩ := hr
  cases h with
  | nothing _ hnone => rw [hnone] at hfile; simp at hfile
  | insert _ _ _ _ hnone => rw [hnone] at hfile; simp at hfile
  | @mark s j c hst hh hjob hmark hrow hfiles =>
    obtain ⟨rfl, _⟩ := hfiles.eq_of_files hfile
    obtain ⟨hold, stamp, rfl⟩ := hmark.of_cleans hcleans
    exact ⟨s, j, stamp, _, hst, hh, hjob, hrow, hold, hfiles⟩
  | outcome _ _ hruns =>
    exact absurd hcleans (by cases ht : d.task <;> simp [ht, Task.runs, Task.cleans] at hruns ⊢)

end

/-- Unit `u` has claimed the job; and if no commit filed it since, its row is what was claimed, and
so is what the unit has loaded. -/
structure Holds (P : Pool) (u : Nat) (st : Stage) (id : JobId) (xs ys : List Deed) (e : Deed)
    (j : Job) : Prop where
  past : P.past = xs ++ e :: ys
  unit : e.unit = u
  runs : e.task.runs = some id
  files : e.files id = some j
  status : j.status = .running
  row : (∀ d ∈ ys, d.files id = none) →
    P.memory.rows.get? id = some j ∧ ∀ v, st.view = some v → v = j

variable {P P' : Pool} {d e : Deed} {u : Nat} {t : Task} {st st' : Stage} {id : JobId}
  {xs ys : List Deed} {j : Job}

theorem Holds.claims (h : P.Holds u st id xs ys e j) : e.Claims id :=
  ⟨by rw [h.runs]; rfl, j, h.files, h.status⟩

theorem Holds.mono (h : P.Holds u st id xs ys e j) (hd : P.Happens d P') (hf : P.Filing d)
    (hview : (∀ d ∈ ys, d.files id = none) → ∀ v, st'.view = some v → v = j) :
    P'.Holds u st' id xs (ys ++ [d]) e j := by
  refine ⟨by rw [hd.past_eq, h.past]; simp, h.unit, h.runs, h.files, h.status, fun hnone => ?_⟩
  have hnone' : ∀ d ∈ ys, d.files id = none := fun d hd => hnone d (List.mem_append_left _ hd)
  refine ⟨?_, hview hnone'⟩
  have hrow := (h.row hnone').1
  rw [hd.memory_eq.2] at hrow
  rw [hd.memory_eq.1]
  exact hf.after_of_before (hnone d (by simp)) hrow

theorem Sound.holds_claim {s : SessionId} {j : Job} {c : Changes} (hP : P.Sound)
    (hd : P.Happens d P') (hst : P.stage d.unit d.task = .marked s j c)
    (hh : d.heard = ⟨.store (.commit s), .ok ()⟩) (hruns : d.task.runs = some id) :
    P'.Holds d.unit .claimed id P.past [] d (c.overwrite j) := by
  obtain ⟨hjob, hmark, hrow, hfiles⟩ := hP.commit_marked hd hst hh
  obtain rfl : id = j.id := Option.some.inj ((Task.job_of_runs hruns).symm.trans hjob)
  refine ⟨hd.past_eq, rfl, hruns, hfiles.files_self, ?_, fun _ => ⟨?_, ?_⟩⟩
  · obtain ⟨_, stamp, rfl⟩ := hmark.of_runs (by rw [hruns]; rfl)
    rfl
  · rw [hd.memory_eq.1]
    exact hfiles.after_self
  · intro v hv
    simp [Stage.view] at hv

/-- Every unit that executes a job holds it. -/
theorem Reachable.holds {ρ : Pool → Pool → Prop} {m : Memory} {now : Instant} {w : WorkUnit}
    {p : Program Engine Upshot} (h : Reachable ρ (fresh m now) P) (hm : m.Quiet) (hu : P.At u w p)
    (hex : (P.stage u w.task).Executing) (hruns : w.task.runs = some id) :
    ∃ xs ys e j, P.Holds u (P.stage u w.task) id xs ys e j := by
  have hall := h.stages (I := fun P u t st => st.Executing → ∀ id, t.runs = some id →
    ∃ xs ys e j, P.Holds u st id xs ys e j) hm ?_ ?_ ?_ ?_ hu
  · exact hall hex id hruns
  · intro P u t _ hidle
    exact absurd hidle Bool.false_ne_true
  · intro P P' u t st _ _ hpast hrows hold hex id hruns
    obtain ⟨xs, ys, e, j, h⟩ := hold hex id hruns
    exact ⟨xs, ys, e, j, hpast.trans h.past, h.unit, h.runs, h.files, h.status, hrows ▸ h.row⟩
  · intro P P' d u t st hP hd _ hold hex id hruns
    obtain ⟨xs, ys, e, j, h⟩ := hold hex id hruns
    exact ⟨xs, _, e, j, h.mono hd (hP.filing hd) fun hnone => (h.row hnone).2⟩
  · intro P P' d st hP hd hmove hold hex id hruns
    rcases hmove.executing hex with
      ⟨hex', hview⟩ | ⟨s, j, ch, hmarked, hheard, hclaimed⟩ |
      ⟨v, id', hclaimed, hruns', hheard, hload⟩
    · obtain ⟨xs, ys, e, j, h⟩ := hold hex' id hruns
      exact ⟨xs, _, e, j, h.mono hd (hP.filing hd) fun hnone => hview ▸ (h.row hnone).2⟩
    · rw [hclaimed]
      exact ⟨_, _, _, _, hP.holds_claim hd hmarked hheard hruns⟩
    · obtain ⟨xs, ys, e, j, h⟩ := hold (by rw [hclaimed]; trivial) id hruns
      refine ⟨xs, _, e, j, h.mono hd (hP.filing hd) fun hnone v' hv' => ?_⟩
      rw [hload] at hv'
      obtain rfl : v = v' := Option.some.inj hv'
      obtain rfl : id = id' := Option.some.inj (hruns.symm.trans hruns')
      have hrow := hd.memory_eq.2 ▸ (h.row hnone).1
      exact Option.some.inj ((hd.read_eq hheard).symm.trans hrow)

/-- An invocation starts at a unit that has loaded the job. -/
theorem Reachable.invokes {ρ : Pool → Pool → Prop} {m : Memory} {now : Instant} {i : Invocation}
    (h : Reachable ρ (fresh m now) P') (hm : m.Quiet) (hd : P.Happens d P') (hi : d.Invokes i) :
    ∃ v, P'.stage d.unit d.task = .loaded v ∧ d.task.runs = some i.job ∧ v.status = .running ∧
      ∃ deadline, i = v.invocation deadline := by
  obtain ⟨w, p, hu, htask, hasks, _⟩ := hd.at_unit
  have hP := h.sound hm
  have hmay := hP.may hu (hasks.symm.trans hi)
  have hfits := hP.fits hu
  rw [htask] at hmay hfits
  generalize hst : P'.stage d.unit d.task = st at hmay hfits
  generalize ht : d.task = t at hmay hfits
  cases hmay with
  | invoke hrun hk => exact ⟨_, rfl, hfits, hrun, _, rfl⟩

theorem Reachable.files_none_of_invokes {ρ : Pool → Pool → Prop} {m : Memory} {now : Instant}
    {i : Invocation} (h : Reachable ρ (fresh m now) P') (hm : m.Quiet) (hP : P.Sound)
    (hd : P.Happens d P') (hi : d.Invokes i) (k : JobId) : d.files k = none := by
  cases hfile : d.files k with
  | none => rfl
  | some j =>
    exfalso
    -- behind a commit nothing is loaded
    obtain ⟨s, hh⟩ := Deed.heard_of_files hfile
    obtain ⟨v, hst, _⟩ := h.invokes hm hd hi
    have hmove := hP.moves hd
    rw [hst, hh] at hmove
    generalize P.stage d.unit d.task = st at hmove
    cases hmove with
    | stays _ hno => exact hno s rfl

/-- No action is invoked but behind a claim that its unit has committed. -/
theorem Reachable.claim_of_invokes {ρ : Pool → Pool → Prop} {m : Memory} {now : Instant}
    {i : Invocation} (h : Reachable ρ (fresh m now) P) (hm : m.Quiet)
    (hsplit : P.past = xs ++ d :: ys) (hi : d.Invokes i) :
    ∃ e ∈ xs, e.unit = d.unit ∧ e.Claims i.job := by
  obtain ⟨Q, Q', hQ, rfl, hd, hr, _⟩ := h.deed rfl hsplit
  have hQ' : Reachable ρ (fresh m now) Q' := .step hQ (.answer hd) hr
  obtain ⟨v, hst, hruns, _⟩ := hQ'.invokes hm hd hi
  obtain ⟨w, p, hu, htask, _⟩ := hd.at_unit
  obtain ⟨as, bs, e, j, hholds⟩ := hQ'.holds hm hu (by rw [htask, hst]; rfl) (htask ▸ hruns)
  refine ⟨e, ?_, hholds.unit, hholds.claims⟩
  have hpast := hd.past_eq.symm.trans hholds.past
  rcases Pool.split_concat hpast with ⟨_, _, rfl⟩ | ⟨bs, _, hpast⟩
  · have hnone := hQ'.files_none_of_invokes hm (hQ.sound hm) hd hi i.job
    rw [hholds.files] at hnone
    simp at hnone
  · rw [hpast]
    simp

/-! ## between claim and end -/

/-- Unit `u` has committed its claim of the job and has not come to its end. -/
structure Executes (P : Pool) (u : Nat) (id : JobId) : Prop where
  claimed : ∃ d ∈ P.past, d.unit = u ∧ d.Claims id
  live : ∃ w, P.units[u]? = some w ∧ w.Live

theorem live_iff : (∃ w, P.units[u]? = some w ∧ w.Live) ↔
    ∃ w p, P.At u w p ∧ p.question.isSome := by
  unfold WorkUnit.Live WorkUnit.question
  constructor
  · rintro ⟨w, hw, hlive⟩
    cases hr : w.rest with
    | none => rw [hr] at hlive; simp at hlive
    | some p => exact ⟨w, p, ⟨hw, hr⟩, by rw [hr] at hlive; exact hlive⟩
  · rintro ⟨w, p, hu, hq⟩
    exact ⟨w, hu.unit, by rw [hu.rest]; exact hq⟩

theorem Executes.of_quiet (h : P'.Executes u id) (hpast : P'.past = P.past)
    (hat : ∀ v w p, P'.At v w p → P.At v w p ∨ P'.told v = []) : P.Executes u id := by
  obtain ⟨⟨d, hd, hdu, hclaim⟩, hlive⟩ := h
  obtain ⟨w, p, hu, hq⟩ := live_iff.mp hlive
  rcases hat u w p hu with hu | htold
  · exact ⟨⟨d, hpast ▸ hd, hdu, hclaim⟩, live_iff.mpr ⟨w, p, hu, hq⟩⟩
  · exact absurd hdu (unit_ne_of_told htold hd)

theorem Executes.of_happens (h : P'.Executes u id) (hd : P.Happens d P') :
    P.Executes u id ∨ d.unit = u ∧ d.Claims id := by
  obtain ⟨⟨e, he, heu, hclaim⟩, hlive⟩ := h
  rw [hd.past_eq] at he
  rcases List.mem_append.mp he with he | he
  · refine Or.inl ⟨⟨e, he, heu, hclaim⟩, live_iff.mpr ?_⟩
    obtain ⟨w, p, hu, hq⟩ := live_iff.mp hlive
    obtain @⟨v, w', c, k, a, m, hw, hk, ha⟩ := hd
    have hv : P.At v w' (.call c k) := ⟨hw, hk⟩
    rcases at_goOn hv.lt hu with ⟨rfl, _⟩ | ⟨_, hu⟩
    · exact ⟨w', _, hv, rfl⟩
    · exact ⟨w, p, hu, hq⟩
  · obtain rfl := List.mem_singleton.mp he
    exact Or.inr ⟨heu, hclaim⟩

section
variable {ρ : Pool → Pool → Prop} {m : Memory} {now : Instant} {w : WorkUnit}
  {p : Program Engine Upshot}

theorem Reachable.task_eq (h : Reachable ρ (fresh m now) P) (hm : m.Quiet) (hu : P.At u w p)
    (hd : d ∈ P.past) (hdu : d.unit = u) : d.task = w.task := by
  have hall := h.stages (I := fun P u t _ => ∀ d ∈ P.past, d.unit = u → d.task = t)
    hm ?_ ?_ ?_ ?_ hu
  · exact hall d hd hdu
  · intro P u t htold d hd hdu
    exact absurd hdu (unit_ne_of_told htold hd)
  · intro P P' u t st _ _ hpast _ hold
    rw [hpast]
    exact hold
  · intro P P' d u t st _ hd hne hold e he heu
    rw [hd.past_eq] at he
    rcases List.mem_append.mp he with he | he
    · exact hold e he heu
    · exact absurd (List.mem_singleton.mp he ▸ heu) hne
  · intro P P' d _ _ hd _ hold e he heu
    rw [hd.past_eq] at he
    rcases List.mem_append.mp he with he | he
    · exact hold e he heu
    · rw [List.mem_singleton.mp he]

/-- Behind its claim a unit executes, or it is over. -/
theorem Reachable.late (h : Reachable ρ (fresh m now) P) (hm : m.Quiet) (hu : P.At u w p)
    (hd : d ∈ P.past) (hdu : d.unit = u) (hclaim : d.Claims id) : (P.stage u w.task).Late := by
  have hall := h.stages (I := fun P u _ st => ∀ d ∈ P.past, d.unit = u → d.Claims id → st.Late)
    hm ?_ ?_ ?_ ?_ hu
  · exact hall d hd hdu hclaim
  · intro P u t htold d hd hdu
    exact absurd hdu (unit_ne_of_told htold hd)
  · intro P P' u t st _ _ hpast _ hold
    rw [hpast]
    exact hold
  · intro P P' d u t st _ hd hne hold e he heu
    rw [hd.past_eq] at he
    rcases List.mem_append.mp he with he | he
    · exact hold e he heu
    · exact absurd (List.mem_singleton.mp he ▸ heu) hne
  · intro P P' d st hP hd hmove hold e he heu hclaim
    rw [hd.past_eq] at he
    rcases List.mem_append.mp he with he | he
    · exact hmove.late (hold e he heu hclaim)
    · obtain rfl := List.mem_singleton.mp he
      obtain ⟨s, j, stamp, c, hst, hh, _⟩ := (hP.filing hd).of_claims hclaim
      rw [hst, hh] at hmove
      cases hmove with
      | stays _ hno => exact absurd rfl (hno s)
      | ends => exact Or.inr rfl
      | claims => exact Or.inl trivial

/-- The stage of a unit that waits for something tells whether it executes. -/
theorem Reachable.executes_iff (h : Reachable ρ (fresh m now) P) (hm : m.Quiet) :
    P.Executes u id ↔ ∃ w p, P.At u w p ∧ p.question.isSome ∧
      (P.stage u w.task).Executing ∧ w.task.runs = some id := by
  have hP := h.sound hm
  constructor
  · rintro ⟨⟨d, hd, hdu, hclaim⟩, hlive⟩
    obtain ⟨w, p, hu, hq⟩ := live_iff.mp hlive
    refine ⟨w, p, hu, hq, ?_, ?_⟩
    · rcases h.late hm hu hd hdu hclaim with hex | hover
      · exact hex
      · -- who is over could only write to the log
        obtain ⟨c, hc⟩ := Option.isSome_iff_exists.mp hq
        have hmay := hP.may hu hc
        rw [hover] at hmay
        generalize ht : w.task = t at hmay
        cases hmay with
        | log => exact absurd hc (hP.silent _ hu)
        | commit hs | rollback hs => simp [Stage.session] at hs
        | publish hv | time hv => simp [Stage.view] at hv
    · obtain ⟨xs, ys, hsplit⟩ := List.append_of_mem hd
      obtain ⟨Q, _, _, _, hfil⟩ := h.filing hm hsplit
      obtain ⟨_, _, _, _, _, _, hruns, _⟩ := hfil.of_claims hclaim
      rw [← h.task_eq hm hu hd hdu]
      exact hruns
  · rintro ⟨w, p, hu, hq, hex, hruns⟩
    obtain ⟨xs, ys, e, j, hholds⟩ := h.holds hm hu hex hruns
    exact ⟨⟨e, by rw [hholds.past]; simp, hholds.unit, hholds.claims⟩,
      live_iff.mpr ⟨w, p, hu, hq⟩⟩

theorem Reachable.executes_of_invoke {i : Invocation} (h : Reachable ρ (fresh m now) P)
    (hm : m.Quiet) (hu : P.At u w p) (hq : p.question = some (.invoke i)) :
    P.Executes u i.job := by
  have hP := h.sound hm
  have hmay := hP.may hu hq
  have hfits := hP.fits hu
  refine (h.executes_iff hm).mpr ⟨w, p, hu, by rw [hq]; rfl, ?_⟩
  generalize P.stage u w.task = st at hmay hfits ⊢
  generalize w.task = t at hmay hfits ⊢
  cases hmay with
  | invoke => exact ⟨rfl, hfits⟩

theorem Reachable.executes_of_concludes {v r : Job} {how : Except ActionError Json} {c : Changes}
    (h : Reachable ρ (fresh m now) P) (hm : m.Quiet) (hd : P.Happens d P')
    (hc : P.Concludes d id v r how c) : P.Executes d.unit id := by
  obtain ⟨s, hst, _⟩ := hc.stage
  obtain ⟨w, p, hu, htask, hq⟩ := hd.at_before
  refine (h.executes_iff hm).mpr ⟨w, p, hu, by rw [hq]; rfl, ?_, htask ▸ hc.runs⟩
  rw [htask, hst]
  rfl

end

end Pool

end JobEngine
