import JobEngine.Proofs.LeftAlone
import JobEngine.Proofs.Pool.Execution
import JobEngine.Proofs.Pool.Play
import JobEngine.Proofs.Pool.Sweep

/-!
# What a sweep leaves

Every unit of a sweep comes to its end within a few answers.  Then the jobs that were running are
pending, nothing else has changed, and nobody is at the store.

* `Reachable.within`, `Reachable.cleaned`   a unit ends behind few answers, with a success;
* `Reachable.finish`     a sweep can always be brought to its end;
* `Swept`                what it leaves there;
* `sweep_puts_back_what_was_running`   all of it together.
-/

namespace JobEngine

open Program Run Memory

/-! ## transcripts -/

/-- A unit that puts a job back does so, or leaves it alone. -/
theorem always_clean {tag : String} {id : JobId} : (Task.clean tag id).program.Always fun hs r =>
    ∃ res, r = some (.ended res) ∧
      ((res = .ok () ∧ ∃ s j now n, j.status = .running ∧ hs = marking s id j .pending now n) ∨
        LeftAlone (.forJob tag id) id .running .pending (.error (.notFound id)) hs res) := by
  have hclean := @always_cleanJob (.forJob tag id) id rfl
  refine hclean.bind ?_ ?_
  · rintro hs (⟨h, _⟩ | ⟨_, h, _⟩) <;> exact nomatch h
  · rintro res hs h
    refine always_done ⟨res, rfl, ?_⟩
    rw [List.append_nil]
    rcases h with ⟨h, hmarked⟩ | ⟨res, h, hleft⟩
    · exact Or.inl ⟨Option.some.inj h, hmarked⟩
    · exact Or.inr (Option.some.inj h ▸ hleft)

/-- Where nothing fails, a unit leaves a job alone that it found not to run. -/
theorem LeftAlone.of_smooth {ctx : Context} {id : JobId} {want next : Status} {e : JobError}
    {hs : List Heard} {res : Except JobError Unit}
    (h : LeftAlone ctx id want next (.error e) hs res)
    (hsmooth : ∀ x ∈ hs, Smooth x) :
    res = .ok () ∧ ∃ s j, j.status ≠ want ∧ ⟨.store (.get s id true), .ok (some j)⟩ ∈ hs := by
  cases h <;> simp only [List.forall_mem_cons] at hsmooth
  case refused => exact nomatch hsmooth.1
  case idle s a b ha =>
    obtain ⟨-, hget, hcommit, -⟩ := hsmooth
    cases hcommit
    cases hget with
    | finds _ _ j =>
      cases ha with
      | unwanted hrun => exact ⟨rfl, s, j, hrun, by simp⟩
  case missing | unread => exact nomatch hsmooth.2.1
  case unwritten | vanished => exact nomatch hsmooth.2.2.2.1
  case uncommitted => exact nomatch hsmooth.2.2.2.2.1

namespace Pool

variable {ids : List JobId} {P P' Q : Pool} {d : Deed} {m : Memory} {now : Instant} {u : Nat}
  {w : WorkUnit} {p : Program Engine Upshot} {id : JobId}

/-! ## units that are over -/

section
variable (h : Reachable (Sweeping ids) (fresh m now) P) (hm : m.Quiet)
include h hm

/-- A unit is at its end behind five answers. -/
theorem Reachable.within (u : Nat) : (P.told u).length ≤ 5 := by
  cases hu : P.units[u]? with
  | none => rw [(h.sound hm).untold (List.getElem?_eq_none_iff.mp hu)]; simp
  | some w =>
    obtain ⟨tag, id, p, htask, _, hp⟩ := h.cleaning.unit hu
    obtain ⟨hs, r, hyields⟩ := p.exists_yields
    have hwhole := h.yields hm ⟨hu, hp⟩ hyields
    rw [htask] at hwhole
    have hlength : (P.told u ++ hs).length ≤ 5 := by
      obtain ⟨res, _, ⟨_, s, j, now, n, _, e⟩ | hleft⟩ := always_clean _ _ hwhole
      · rw [e]
        exact Nat.le_refl 5
      · exact hleft.length_le
    rw [List.length_append] at hlength
    omega

/-- A job that was put back does not run from then on. -/
theorem Reachable.rests_of_marking {s : SessionId} {j : Job} {tag : String} {time : Instant}
    {n : Nat}
    (hu : P.At u w p) (htask : w.task = .clean tag id)
    (htold : P.told u = marking s id j .pending time n) :
    ∃ j, P.memory.rows.get? id = some j ∧ j.status ≠ .running := by
  have hsplit : P.told u = (marking s id j .pending time n).dropLast ++
      [⟨.store (.commit s), .ok ()⟩] := htold
  obtain ⟨Q, Q', d, hpast, hQ, hQu, hd, hr, hP, rfl, hheard⟩ := h.told_split hsplit
  have hdt := (h.task_eq hm hu hpast rfl).trans htask
  have hstage : Q.stage d.unit d.task
      = .marked s j { status := some .pending, updated := some time } := by
    unfold stage
    rw [hQu, hdt]
    rfl
  obtain ⟨hjob, _, _, hfiles⟩ := (hQ.sound hm).commit_marked hd hstage hheard
  rw [hdt] at hjob
  obtain rfl : id = j.id := Option.some.inj hjob
  have hrow := hfiles.after_self
  rw [← hd.memory_eq.1] at hrow
  exact ⟨_, (hQ.step (.answer hd) hr).stays hm hP hrow nofun, nofun⟩

/-- A job that was found not to run does not run from then on. -/
theorem Reachable.rests_of_read {s : SessionId} {j : Job} {tag : String}
    (hu : P.At u w p) (htask : w.task = .clean tag id) (hrun : j.status ≠ .running)
    (htold : ⟨.store (.get s id true), .ok (some j)⟩ ∈ P.told u) :
    ∃ j, P.memory.rows.get? id = some j ∧ j.status ≠ .running := by
  obtain ⟨as, bs, hsplit⟩ := List.append_of_mem htold
  obtain ⟨Q, Q', d, hpast, hQ, _, hd, hr, hP, rfl, hheard⟩ := h.told_split hsplit
  have hQ' := hQ.step (.answer hd) hr
  obtain ⟨w', p', hu', htask', _, hstage⟩ := hd.at_unit
  have hfits := (hQ'.sound hm).fits hu'
  rw [htask', hstage, hheard] at hfits
  obtain ⟨hjob, _, _, _, hrow⟩ : d.task.Fits Q'.memory (.fetched s j) := hfits
  rw [(h.task_eq hm hu hpast rfl).trans htask] at hjob
  obtain rfl : id = j.id := Option.some.inj hjob
  exact ⟨j, hQ'.stays hm hP hrow hrun, hrun⟩

/-- A unit that is over has succeeded, its job does not run, and its session is gone. -/
theorem Reachable.cleaned (hids : ∀ id ∈ ids, ∃ j, m.rows.get? id = some j) (hu : P.At u w p)
    (hover : p.question = none) : p = .done (.ended (.ok ())) ∧ P.session u = none ∧
      ∃ id j, w.task.job = some id ∧ P.memory.rows.get? id = some j ∧ j.status ≠ .running := by
  obtain ⟨tag, id, htask, _⟩ := h.cleaning.at_unit hu
  obtain ⟨r, hr, hyields⟩ : ∃ r, (r = some (.ended (.ok ())) → p = .done (.ended (.ok ()))) ∧
      p.Yields [] r := by
    cases p with
    | done a => exact ⟨some a, fun e => by rw [Option.some.inj e], .done a⟩
    | crash => exact ⟨none, nofun, .crash⟩
    | call c k => exact nomatch hover
  have hwhole := h.yields hm hu hyields
  rw [htask, List.append_nil] at hwhole
  obtain ⟨res, rfl, ⟨rfl, s, j, now, n, _, e⟩ | hleft⟩ := always_clean _ _ hwhole
  · refine ⟨hr rfl, ?_, id, ?_⟩
    · unfold session
      rw [e]
      rfl
    · obtain ⟨j, hj, hrun⟩ := h.rests_of_marking hm hu htask e
      exact ⟨j, htask ▸ rfl, hj, hrun⟩
  · obtain ⟨rfl, s, j, hrun, hmem⟩ := hleft.of_smooth fun x hx => h.smooth hm hids hx
    obtain ⟨j', hj', hrun'⟩ := h.rests_of_read hm hu htask hrun hmem
    exact ⟨hr rfl, hleft.session, id, j', htask ▸ rfl, hj', hrun'⟩

end

/-! ## the end of a sweep -/

/-- Every job that is listed has its unit, and all units are over. -/
structure Finished (ids : List JobId) (P : Pool) : Prop where
  started {id : JobId} : id ∈ ids → ∃ w ∈ P.units, w.task.job = some id
  ended {w : WorkUnit} : w ∈ P.units → ¬ w.Live

theorem Reachable.units_stay {ρ : Pool → Pool → Prop} (h : Reachable ρ P P') (hw : w ∈ P.units) :
    ∃ w' ∈ P'.units, w'.task = w.task := by
  induction h with
  | refl => exact ⟨w, hw, rfl⟩
  | step _ hs _ ih =>
    obtain ⟨w₁, hw₁, e₁⟩ := ih
    obtain ⟨w₂, hw₂, e₂⟩ := hs.units_stay hw₁
    exact ⟨w₂, hw₂, e₂.trans e₁⟩

theorem live_cases (hw : P.units[u]? = some w) :
    ¬ w.Live ∨ ∃ c k, P.At u w (.call c k) := by
  cases hp : w.rest with
  | none => exact Or.inl (by simp [WorkUnit.Live, WorkUnit.question, hp])
  | some p =>
    cases p with
    | call c k => exact Or.inr ⟨c, k, hw, hp⟩
    | _ => exact Or.inl (by simp [WorkUnit.Live, WorkUnit.question, hp, question])

section
variable (h : Reachable (Sweeping ids) (fresh m now) P) (hm : m.Quiet)
  (hids : ∀ id ∈ ids, ∃ j, m.rows.get? id = some j)
include h hm hids

/-- A unit can be brought to its end while no other goes on. -/
theorem Reachable.finish_unit (u : Nat) : ∃ P', Reachable (Sweeping ids) P P' ∧
    P'.units.length = P.units.length ∧ (∀ v, v ≠ u → P'.units[v]? = P.units[v]?) ∧
    ∀ w, P'.units[u]? = some w → ¬ w.Live := by
  obtain ⟨n, hn⟩ : ∃ n, 5 ≤ (P.told u).length + n := ⟨5, Nat.le_add_left ..⟩
  induction n generalizing P with
  | zero =>
    refine ⟨P, .refl, rfl, fun _ _ => rfl, fun w hw hlive => ?_⟩
    rcases live_cases hw with hnot | ⟨c, k, hu⟩
    · exact hnot hlive
    · -- a unit has no sixth answer
      obtain ⟨d, P', hd, hperf, rfl⟩ := h.goesOn hm hids hu
      have hwithin := (h.step (.answer hd) (.answer hd hperf)).within hm d.unit
      rw [hd.told_eq, List.length_append, List.length_singleton] at hwithin
      omega
  | succ n ih =>
    cases hw : P.units[u]? with
    | none => exact ⟨P, .refl, rfl, fun _ _ => rfl, fun w hw' => nomatch hw.symm.trans hw'⟩
    | some w =>
      rcases live_cases hw with hnot | ⟨c, k, hu⟩
      · exact ⟨P, .refl, rfl, fun _ _ => rfl, fun w' hw' =>
          Option.some.inj (hw.symm.trans hw') ▸ hnot⟩
      · obtain ⟨d, P₁, hd, hperf, rfl⟩ := h.goesOn hm hids hu
        have h₁ := h.step (.answer hd) (.answer hd hperf)
        obtain ⟨P', hP', hlength, hothers, hover⟩ := ih h₁ (by
          rw [hd.told_eq, List.length_append, List.length_singleton]
          omega)
        have hunits : P₁.units.length = P.units.length ∧
            ∀ v, v ≠ d.unit → P₁.units[v]? = P.units[v]? := by
          obtain @⟨u, w, c, k, a, m', hw, hk, ha⟩ := hd
          exact ⟨List.length_set, fun v hne => List.getElem?_set_ne hne.symm⟩
        exact ⟨P', (Reachable.refl.step (.answer hd) (.answer hd hperf)).trans hP',
          hlength.trans hunits.1, fun v hne => (hothers v hne).trans (hunits.2 v hne), hover⟩

/-- All units can be brought to their ends. -/
theorem Reachable.finish_units : ∃ P', Reachable (Sweeping ids) P P' ∧
    ∀ w ∈ P'.units, ¬ w.Live := by
  have hfirst (n : Nat) : ∃ P', Reachable (Sweeping ids) P P' ∧
      P'.units.length = P.units.length ∧ ∀ u < n, ∀ w, P'.units[u]? = some w → ¬ w.Live := by
    induction n with
    | zero => exact ⟨P, .refl, rfl, fun u hu => absurd hu (Nat.not_lt_zero u)⟩
    | succ n ih =>
      obtain ⟨P₁, hP₁, hlength, hover⟩ := ih
      obtain ⟨P', hP', hlength', hothers, hlast⟩ := (h.trans hP₁).finish_unit hm hids n
      refine ⟨P', hP₁.trans hP', hlength'.trans hlength, fun u hu w hw => ?_⟩
      by_cases e : u = n
      · exact hlast w (e ▸ hw)
      · exact hover u (by omega) w ((hothers u e).symm.trans hw)
  obtain ⟨P', hP', hlength, hover⟩ := hfirst P.units.length
  refine ⟨P', hP', fun w hw => ?_⟩
  obtain ⟨u, hu⟩ := List.mem_iff_getElem?.mp hw
  exact hover u (hlength ▸ (List.getElem?_eq_some_iff.mp hu).1) w hu

omit h hm hids in
/-- Units can be started for all jobs that are listed. -/
theorem Reachable.start_units (P : Pool) {xs : List JobId} (hxs : ∀ id ∈ xs, id ∈ ids) :
    ∃ P', Reachable (Sweeping ids) P P' ∧ ∀ id ∈ xs, ∃ w ∈ P'.units, w.task.job = some id := by
  induction xs with
  | nil => exact ⟨P, .refl, fun _ h => absurd h List.not_mem_nil⟩
  | cons id xs ih =>
    obtain ⟨P₁, hP₁, hunits⟩ := ih fun k hk => hxs k (List.mem_cons_of_mem _ hk)
    by_cases hid : ∃ w ∈ P₁.units, w.task.job = some id
    · refine ⟨P₁, hP₁, fun k hk => ?_⟩
      rcases List.mem_cons.mp hk with rfl | hk
      · exact hid
      · exact hunits k hk
    · have hnew (w : WorkUnit) (hw : w ∈ P₁.units) : w.task.job ≠ some id :=
        fun e => hid ⟨w, hw, e⟩
      refine ⟨P₁.start (.clean "sweep" id), hP₁.step (.start _)
        (.start (hxs id List.mem_cons_self) hnew), fun k hk => ?_⟩
      rcases List.mem_cons.mp hk with rfl | hk
      · exact ⟨.start (.clean "sweep" k), List.mem_append_right _ (List.mem_singleton_self _), rfl⟩
      · obtain ⟨w, hw, hjob⟩ := hunits k hk
        exact ⟨w, List.mem_append_left _ hw, hjob⟩

/-- A sweep can always be brought to its end. -/
theorem Reachable.finish : ∃ P', Reachable (Sweeping ids) P P' ∧ P'.Finished ids := by
  obtain ⟨P₁, hP₁, hstarted⟩ := Reachable.start_units P fun id (hid : id ∈ ids) => hid
  obtain ⟨P', hP', hover⟩ := (h.trans hP₁).finish_units hm hids
  refine ⟨P', hP₁.trans hP', fun hid => ?_, fun hw => hover _ hw⟩
  obtain ⟨w, hw, hjob⟩ := hstarted _ hid
  obtain ⟨w', hw', htask⟩ := hP'.units_stay hw
  exact ⟨w', hw', htask ▸ hjob⟩

end

/-! ## the sweep as a whole -/

/-- What a sweep of the store `m` leaves. -/
structure Swept (m : Memory) (P : Pool) : Prop where
  running {id : JobId} {j : Job} : m.rows.get? id = some j → j.status = .running →
    ∃ t, P.memory.rows.get? id = some { j with status := .pending, updated := t }
  others {id : JobId} : (∀ j, m.rows.get? id = some j → j.status ≠ .running) →
    P.memory.rows.get? id = m.rows.get? id
  succeeded {w : WorkUnit} : w ∈ P.units → w.rest = some (.done (.ended (.ok ())))
  quiet : P.memory.Quiet
  nothing (w : Calm) (n : Nat) : ∃ hs, Run.abandoned.Goes w n P.memory hs (.ok []) P.memory
  /-- Another sweep, of the same jobs or of others, leaves the records alone. -/
  again {ids : List JobId} {now : Instant} {P' : Pool} :
    Reachable (Sweeping ids) (fresh P.memory now) P' → P'.memory.rows = P.memory.rows

theorem Reachable.swept (h : Reachable (Sweeping m.abandoned) (fresh m now) P) (hm : m.Quiet)
    (hover : P.Finished m.abandoned) : P.Swept m := by
  have hids := abandoned_present hm.coherent
  have hend {u : Nat} {w : WorkUnit} (hw : P.units[u]? = some w) :
      ∃ p, P.At u w p ∧ p.question = none := by
    obtain ⟨_, _, p, _, _, hp⟩ := h.cleaning.unit hw
    have hnot := hover.ended (List.mem_of_getElem? hw)
    refine ⟨p, ⟨hw, hp⟩, ?_⟩
    simpa [WorkUnit.Live, WorkUnit.question, hp] using hnot
  -- no job that was running runs now
  have hrests {id : JobId} (hid : id ∈ m.abandoned) :
      ∃ j, P.memory.rows.get? id = some j ∧ j.status ≠ .running := by
    obtain ⟨w, hw, hjob⟩ := hover.started hid
    obtain ⟨u, hu⟩ := List.mem_iff_getElem?.mp hw
    obtain ⟨p, hp, hq⟩ := hend hu
    obtain ⟨_, _, id', j, hjob', hj, hrun⟩ := h.cleaned hm hids hp hq
    obtain rfl := Option.some.inj (hjob.symm.trans hjob')
    exact ⟨j, hj, hrun⟩
  have hrunning {id : JobId} {j : Job} (hj : m.rows.get? id = some j) (hrun : j.status = .running) :
      ∃ t, P.memory.rows.get? id = some { j with status := .pending, updated := t } := by
    obtain ⟨j', hj', hrun'⟩ := hrests ((mem_abandoned hm.coherent).mpr ⟨j, hj, hrun⟩)
    rcases h.row hm id with hsame | ⟨j₀, t, hj₀, _, hback⟩
    · obtain rfl := Option.some.inj ((hsame.trans hj).symm.trans hj')
      exact absurd hrun hrun'
    · obtain rfl := Option.some.inj (hj.symm.trans hj₀)
      exact ⟨t, hback⟩
  have hothers {id : JobId} (hno : ∀ j, m.rows.get? id = some j → j.status ≠ .running) :
      P.memory.rows.get? id = m.rows.get? id := by
    rcases h.row hm id with hsame | ⟨j, _, hj, hrun, _⟩
    · exact hsame
    · exact absurd hrun (hno j hj)
  have hidle (id : JobId) (j : Job) (hj : P.memory.rows.get? id = some j) :
      j.status ≠ .running := by
    intro hrun
    by_cases hid : id ∈ m.abandoned
    · obtain ⟨j', hj', hrun'⟩ := hrests hid
      exact hrun' (Option.some.inj (hj.symm.trans hj') ▸ hrun)
    · have hno (j₀ : Job) (hj₀ : m.rows.get? id = some j₀) : j₀.status ≠ .running :=
        fun hrun₀ => hid ((mem_abandoned hm.coherent).mpr ⟨j₀, hj₀, hrun₀⟩)
      exact hno j ((hothers hno).symm.trans hj) hrun
  have hquiet : P.memory.Quiet := h.quiet hm fun u w p hu => by
    obtain ⟨p', hp', hq⟩ := hend hu.unit
    exact (h.cleaned hm hids hp' hq).2.1
  have hnone : P.memory.abandoned = [] := List.eq_nil_iff_forall_not_mem.mpr fun id hid => by
    obtain ⟨j, hj, hrun⟩ := (mem_abandoned hquiet.coherent).mp hid
    exact hidle id j hj hrun
  refine ⟨hrunning, hothers, fun hw => ?_, hquiet, fun w n => ?_, fun h' => ?_⟩
  · obtain ⟨u, hu⟩ := List.mem_iff_getElem?.mp hw
    obtain ⟨p, hp, hq⟩ := hend hu
    exact hp.rest.trans (congrArg some (h.cleaned hm hids hp hq).1)
  · exact ⟨_, hnone ▸ goes_abandoned w n P.memory⟩
  · exact h'.rows_eq_of_idle hquiet hidle

/-- **The sweep at the start.**  At a store without sessions it lists each running job once.  Its
units may go on in any order: none is ever stuck or hears more than five answers, every record
stays as it is or is put back, and the sweep can always be brought to its end.  There it leaves what
`Swept` says. -/
theorem sweep_puts_back_what_was_running (hm : m.Quiet) (now : Instant) :
    (∀ w n, ∃ hs, Run.abandoned.Goes w n m hs (.ok m.abandoned) m) ∧ m.abandoned.Nodup ∧
    (∀ id, id ∈ m.abandoned ↔ ∃ j, m.rows.get? id = some j ∧ j.status = .running) ∧
    ∀ P, Reachable (Sweeping m.abandoned) (fresh m now) P →
      (∀ id, P.memory.rows.get? id = m.rows.get? id ∨
        PutBack (m.rows.get? id) (P.memory.rows.get? id)) ∧
      (∀ u w, P.units[u]? = some w → w.Live →
        ∃ d P', P.Happens d P' ∧ d.Performed ∧ d.unit = u) ∧
      (∀ u, (P.told u).length ≤ 5) ∧
      (∃ P', Reachable (Sweeping m.abandoned) P P' ∧ P'.Finished m.abandoned) ∧
      (P.Finished m.abandoned → P.Swept m) := by
  have hids := abandoned_present hm.coherent
  refine ⟨fun w n => ⟨_, goes_abandoned w n m⟩, nodup_abandoned hm.coherent,
    fun id => mem_abandoned hm.coherent, fun P h => ⟨h.row hm, fun u w hw hlive => ?_,
      h.within hm, h.finish hm hids, h.swept hm⟩⟩
  rcases live_cases hw with hnot | ⟨c, k, hu⟩
  · exact absurd hlive hnot
  · exact h.goesOn hm hids hu

/-- A store whose only job was running when nobody was left to run it. -/
def strandedStore : Memory := { rows := [(lone.id, { lone with status := .running })] }

theorem stranded_job_is_put_back : strandedStore.abandoned = [lone.id] ∧
    ∃ P t, Reachable (Sweeping strandedStore.abandoned) (fresh strandedStore .epoch) P ∧
      P.Finished strandedStore.abandoned ∧ P.Swept strandedStore ∧
      P.memory.rows.get? lone.id = some { lone with updated := t } := by
  obtain ⟨-, -, -, hsweep⟩ := sweep_puts_back_what_was_running
    (m := strandedStore) (quiet_single { lone with status := .running }) .epoch
  obtain ⟨-, -, -, ⟨P, hP, hover⟩, -⟩ := hsweep _ .refl
  obtain ⟨-, -, -, -, hswept⟩ := hsweep P hP
  obtain ⟨t, hrow⟩ : ∃ t, P.memory.rows.get? lone.id = some { lone with updated := t } :=
    (hswept hover).running (j := { lone with status := .running }) rfl rfl
  exact ⟨List.perm_singleton.mp strandedStore.abandoned_perm, P, t, hP, hover, hswept hover, hrow⟩

end Pool

end JobEngine
