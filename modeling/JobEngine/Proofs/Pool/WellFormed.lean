import JobEngine.Proofs.Pool.History
import JobEngine.Proofs.Store.Calls

/-!
# Well-formed records

The status of a record, its attempts, its result and its error say the same: who waits or runs has
attempts left and nothing to show, who is finished has a result, and who failed has used up all
attempts.

* `Job.WellFormed`            what the fields of a record say together;
* `wellFormed_new`, `WellFormed.mark`, `WellFormed.settles`   the writes that keep it;
* `Pool.Kept`                 all rows are such records, and due no earlier than as they were filed;
* `Reachable.tracked`         so they are where no job is put back while it is executed;
* `records_are_well_formed`   from an empty store on.
-/

namespace JobEngine

structure Job.WellFormed (j : Job) : Prop where
  tryMax : 1 ≤ j.tryMax
  waits : j.status = .pending ∨ j.status = .running →
    j.trys < j.tryMax ∧ j.result = none ∧ j.error = none
  finished : j.status = .finished →
    1 ≤ j.trys ∧ j.trys ≤ j.tryMax ∧ j.result.isSome ∧ j.error = none
  error : j.status = .error → j.trys = j.tryMax ∧ j.error.isSome ∧ j.result = none

/-- The deed files a new job. -/
def Deed.Creates (d : Deed) (id : JobId) (j : Job) : Prop :=
  j.id = id ∧ ∃ k, d.heard = ⟨.store (.insert j), .ok k⟩

namespace Job

variable {v : Job} {how : Except ActionError Json} {c : Changes}

theorem wellFormed_new {request : NewJob} {id : JobId} {now : Instant} {j : Job}
    (h : request.toJob id now = .ok j) : j.WellFormed := by
  obtain ⟨_, hpending, htrys, hmax⟩ := NewJob.of_toJob_eq_ok h
  have hnothing : j.result = none ∧ j.error = none := by
    unfold NewJob.toJob at h
    split at h
    · simp at h
    · split at h
      · simp at h
      · obtain rfl := Except.ok.inj h
        exact ⟨rfl, rfl⟩
  have hlt : j.trys < j.tryMax := by
    rw [htrys]
    exact UInt32.lt_iff_toNat_lt.mpr hmax
  refine ⟨UInt32.le_iff_toNat_le.mpr hmax, fun _ => ⟨hlt, hnothing⟩, fun hj => ?_, fun hj => ?_⟩
  · rw [hpending] at hj
    simp at hj
  · rw [hpending] at hj
    simp at hj

theorem WellFormed.trys_le (h : v.WellFormed) : v.trys ≤ v.tryMax := by
  cases hv : v.status with
  | pending => exact UInt32.le_of_lt (h.waits (Or.inl hv)).1
  | running => exact UInt32.le_of_lt (h.waits (Or.inr hv)).1
  | finished => exact (h.finished hv).2.1
  | error => exact UInt32.le_of_eq (h.error hv).1

/-- A job is claimed, or put back. -/
theorem WellFormed.mark {status : Status} (h : v.WellFormed)
    (hold : v.status = .pending ∨ v.status = .running)
    (hnew : status = .pending ∨ status = .running) (t : Instant) :
    WellFormed { v with status, updated := t } where
  tryMax := h.tryMax
  waits _ := h.waits hold
  finished hj := by rcases hnew with e | e <;> simp [e] at hj
  error hj := by rcases hnew with e | e <;> simp [e] at hj

/-- How an attempt ends. -/
theorem WellFormed.settles (h : v.WellFormed) (hrun : v.status = .running)
    (hset : Settles v how c) : (c.overwrite v).WellFormed := by
  obtain ⟨hlt, hresult, herror⟩ := h.waits (Or.inr hrun)
  have hlt := UInt32.lt_iff_toNat_lt.mp hlt
  have hnext := Job.toNat_nextAttempt_of_lt hlt
  cases hset with
  | finished result t =>
    refine ⟨h.tryMax, fun hj => ?_, fun _ => ⟨?_, ?_, rfl, rfl⟩, fun hj => ?_⟩
    · rcases hj with hj | hj <;> simp [Changes.overwrite] at hj
    · show 1 ≤ v.nextAttempt
      rw [UInt32.le_iff_toNat_le, hnext]
      exact Nat.le_add_left 1 _
    · show v.nextAttempt ≤ v.tryMax
      rw [UInt32.le_iff_toNat_le, hnext]
      exact hlt
    · simp [Changes.overwrite] at hj
  | @exhausted now n e t hfail =>
    refine ⟨h.tryMax, fun hj => ?_, fun hj => ?_, fun _ => ⟨?_, rfl, hresult⟩⟩
    · rcases hj with hj | hj <;> simp [Changes.overwrite] at hj
    · simp [Changes.overwrite] at hj
    · show n = v.tryMax
      obtain ⟨rfl, hlast⟩ := of_onFailure_exhausted hfail
      apply UInt32.toNat_inj.mp
      omega
  | @retry now runAt n e t hfail =>
    obtain ⟨hleft, _⟩ := of_onFailure_retry hfail
    have hn : n = v.nextAttempt := attempt_of_onFailure hfail
    refine ⟨h.tryMax, fun _ => ⟨?_, hresult, herror⟩, fun hj => ?_, fun hj => ?_⟩
    · show n < v.tryMax
      rw [hn, UInt32.lt_iff_toNat_lt, hnext]
      exact hleft
    · simp [Changes.overwrite] at hj
    · simp [Changes.overwrite] at hj

end Job

namespace Pool

variable {P P' : Pool} {d : Deed} {m : Memory} {now : Instant} {id : JobId} {r : Job}

/-! ## new rows -/

theorem Sound.creates (hP : P.Sound) (hd : P.Happens d P') (hno : P.memory.rows.get? id = none)
    (hr : P'.memory.rows.get? id = some r) : d.Creates id r := by
  obtain @⟨u, w, c, k, a, m, hw, hk, ha⟩ := hd
  have hsame (hrows : m.rows = P.memory.rows) : False := by
    change m.rows.get? id = some r at hr
    rw [hrows, hno] at hr
    simp at hr
  cases ha with
  | @performed c a _ h =>
    obtain ⟨hid, e⟩ := Memory.perform_new_row hP.coherent h hno hr
    refine ⟨hid, id, ?_⟩
    obtain ⟨rfl, e⟩ := Sigma.mk.inj e
    obtain rfl := eq_of_heq e
    rfl
  | refused c e => exact (hsame (by cases c <;> rfl)).elim
  | _ => exact (hsame rfl).elim

theorem Happens.creates {j : Job} (hd : P.Happens d P') (hc : d.Creates id j) :
    P.memory.rows.get? id = none ∧ P'.memory.rows.get? id = some j := by
  obtain ⟨rfl, k, hh⟩ := hc
  rw [hd.memory_eq.1, hd.memory_eq.2]
  rcases hd.store_cases hh with h | ⟨e, h⟩
  · change ((some (d.before.insert j).1, (d.before.insert j).2) : _ × _) = _ at h
    obtain ⟨ha, hafter⟩ := Prod.mk.inj h
    have ha := Option.some.inj ha
    rw [← hafter]
    rcases Memory.insert_cases d.before j with ⟨_, e⟩ | ⟨hnew, e⟩ <;> rw [e] at ha ⊢
    · simp at ha
    · exact ⟨hnew, (Table.get?_set ..).trans (if_pos rfl)⟩
  · simp [StoreCall.refuse] at h

/-! ## all rows -/

/-- The row of a job is well-formed, was created, and is due no earlier than it was then. -/
structure Kept (P : Pool) (id : JobId) (r : Job) : Prop where
  wellFormed : r.WellFormed
  created : ∃ d ∈ P.past, ∃ j, d.Creates id j
  runAt : ∀ d ∈ P.past, ∀ j, d.Creates id j → j.runAt ≤ r.runAt

/-- What is filed is well-formed. -/
theorem Filing.wellFormed {j : Job} (h : P.Filing d) (hfile : d.files id = some j)
    (hr : d.before.rows.get? id = some r) (hwf : r.WellFormed)
    (hcurrent : ∀ v how c, P.Concludes d id v r how c → v = r ∧ r.status = .running) :
    j.WellFormed := by
  rcases h.files_cases hfile with hclaim | hreset | ⟨v, r', how, c, hc⟩
  · obtain ⟨_, j₀, stamp, _, _, _, _, hrow, hpending, hfiles⟩ := h.of_claims hclaim
    obtain ⟨_, rfl⟩ := hfiles.eq_of_files hfile
    obtain rfl := Option.some.inj (hr.symm.trans hrow)
    exact hwf.mark (Or.inl hpending) (Or.inr rfl) stamp
  · obtain ⟨_, j₀, stamp, _, _, _, _, hrow, hrunning, hfiles⟩ := h.of_resets hreset
    obtain ⟨_, rfl⟩ := hfiles.eq_of_files hfile
    obtain rfl := Option.some.inj (hr.symm.trans hrow)
    exact hwf.mark (Or.inr hrunning) (Or.inl rfl) stamp
  · obtain ⟨_, rfl⟩ := hc.files.eq_of_files hfile
    obtain rfl := Option.some.inj (hr.symm.trans hc.row)
    obtain ⟨rfl, hrun⟩ := hcurrent v how c hc
    exact hwf.settles hrun hc.settles

/-- No row, no job: where a store began empty, what has no row was never created. -/
structure Tracked (P : Pool) (id : JobId) : Prop where
  kept {r : Job} : P.memory.rows.get? id = some r → P.Kept id r
  absent {d : Deed} {j : Job} : P.memory.rows.get? id = none → d ∈ P.past → ¬ d.Creates id j

theorem Happens.past_cases {e : Deed} (hd : P.Happens d P') (he : e ∈ P'.past) :
    e ∈ P.past ∨ e = d := by
  rw [hd.past_eq] at he
  exact (List.mem_append.mp he).imp_right List.mem_singleton.mp

/-- The row is new. -/
theorem Tracked.appears (hT : P.Tracked id) (hP : P.Sound) (hd : P.Happens d P')
    (hno : P.memory.rows.get? id = none) (hr : P'.memory.rows.get? id = some r) : P'.Kept id r := by
  have hnew := hP.creates hd hno hr
  refine ⟨?_, ⟨d, by rw [hd.past_eq]; simp, r, hnew⟩, fun e he j hc => ?_⟩
  · rcases (hP.filing hd).row_cases id with
      ⟨_, hsame⟩ | ⟨_, _, _, hbefore, _⟩ | ⟨_, _, _, _, _, _, j, _, hj, hafter⟩
    · rw [hd.memory_eq.1, hsame, ← hd.memory_eq.2, hno] at hr
      simp at hr
    · rw [← hd.memory_eq.2, hno] at hbefore
      simp at hbefore
    · obtain rfl := Option.some.inj (hafter.symm.trans (hd.memory_eq.1 ▸ hr))
      exact Job.wellFormed_new hj
  · rcases hd.past_cases he with he | rfl
    · exact absurd hc (hT.absent hno he)
    · obtain rfl := Option.some.inj ((hd.creates hc).2.symm.trans hr)
      exact Instant.le_refl _

/-- The row was there, and may be filed anew. -/
theorem Kept.happens {r' : Job} (hK : P.Kept id r) (h : Reachable Orderly (fresh m now) P)
    (hm : m.Quiet) (hd : P.Happens d P') (hr : P.memory.rows.get? id = some r)
    (hr' : P'.memory.rows.get? id = some r') : P'.Kept id r' := by
  obtain ⟨hwf, ⟨e, he, j, hcreated⟩, hdue⟩ := hK
  obtain ⟨r'', hr'', hle⟩ := h.runAt_happens hm hd hr
  obtain rfl := Option.some.inj (hr''.symm.trans hr')
  refine ⟨?_, ⟨e, by rw [hd.past_eq]; exact List.mem_append_left _ he, j, hcreated⟩,
    fun e he j hc => ?_⟩
  · have hfiling := (h.sound hm).filing hd
    rw [hd.memory_eq.1] at hr''
    rw [hd.memory_eq.2] at hr
    rcases hfiling.row_cases id with
      ⟨_, hsame⟩ | ⟨_, j, hfile, _, hafter⟩ | ⟨_, habsent, _⟩
    · exact Option.some.inj (hr''.symm.trans (hsame.trans hr)) ▸ hwf
    · obtain rfl := Option.some.inj (hr''.symm.trans hafter)
      exact hfiling.wellFormed hfile hr hwf fun v how c hc =>
        (h.current hm hd hc).resolve_left (h.not_overtaken hm hd)
    · rw [habsent] at hr
      simp at hr
  · rcases hd.past_cases he with he | rfl
    · exact Instant.le_trans (hdue e he j hc) hle
    · rw [(hd.creates hc).1] at hr
      simp at hr

theorem Tracked.happens (hT : P.Tracked id) (h : Reachable Orderly (fresh m now) P) (hm : m.Quiet)
    (hd : P.Happens d P') : P'.Tracked id := by
  constructor
  · intro r' hr'
    cases hr : P.memory.rows.get? id with
    | none => exact hT.appears (h.sound hm) hd hr hr'
    | some r => exact (hT.kept hr).happens h hm hd hr hr'
  · intro e j hno he hc
    have hno' : P.memory.rows.get? id = none := by
      cases hr : P.memory.rows.get? id with
      | none => rfl
      | some r =>
        obtain ⟨r', hr', _⟩ := h.runAt_happens hm hd hr
        rw [hno] at hr'
        simp at hr'
    rcases hd.past_cases he with he | rfl
    · exact hT.absent hno' he hc
    · rw [(hd.creates hc).2] at hno
      simp at hno

theorem Reachable.tracked (h : Reachable Orderly (fresh {} now) P) (id : JobId) :
    P.Tracked id := by
  refine h.invariant (I := fun P => P.Tracked id) ?_ fun P P' hP hT hs _ => ?_
  · exact ⟨fun hr => by simp at hr, fun _ hd => absurd hd List.not_mem_nil⟩
  · rcases hs.cases_past with ⟨d, hd⟩ | ⟨hpast, hrows⟩
    · exact hT.happens hP Memory.quiet_empty hd
    · constructor
      · intro r hr
        obtain ⟨hwf, hcreated, hdue⟩ := hT.kept (hrows ▸ hr)
        exact ⟨hwf, hpast ▸ hcreated, hpast ▸ hdue⟩
      · intro d j hno hd
        exact hT.absent (hrows ▸ hno) (hpast ▸ hd)

/-- **Records are well-formed for life.**  In every order of the steps of any units over a store
that was empty, with any answers of actions, notifiers and store and with units abandoned anywhere,
every row is well-formed, if no job is put back while a unit executes it.  The job was created, and
is due no earlier than it was then. -/
theorem records_are_well_formed (h : Reachable Orderly (fresh {} now) P) :
    ∀ id r, P.memory.rows.get? id = some r → r.WellFormed ∧
      (∃ d ∈ P.past, ∃ j, d.Creates id j) ∧
      ∀ d ∈ P.past, ∀ j, d.Creates id j → j.runAt ≤ r.runAt := by
  intro id r hr
  obtain ⟨hwf, hcreated, hdue⟩ := (h.tracked id).kept hr
  exact ⟨hwf, hcreated, hdue⟩

/-- A request for one attempt, which fails. -/
def oneAttempt : NewJob := { action := "echo", params := .null, tryMax := 1 }

theorem only_attempt_failed : ∃ P, Reachable Orderly (fresh {} .epoch) P ∧
    ∃ r, P.memory.rows.get? (World.madeId 1) = some r ∧ r.status = .error ∧ r.WellFormed := by
  let script : List Cue := [.start (.create ⟨["echo"]⟩ oneAttempt)] ++ goes 0 3 ++
    [.start (.run ⟨["echo"]⟩ "worker" (World.madeId 1) 1000)] ++ goes 1 14
  obtain ⟨P, hP, hstatus⟩ := reachable_of_play (P := fresh {} .epoch) (ρ := WithoutResets)
    (fun _ P => P.units.all fun w => w.task.cleans = false) script
    (fun P => (P.memory.rows.get? (World.madeId 1)).map Job.status) (a := some .error)
    (fun P P' h w hw => of_decide_eq_true (List.all_eq_true.mp h w hw)) (by decide +kernel)
  have hP : Reachable Orderly (fresh {} .epoch) P :=
    hP.mono fun _ _ => orderly_of_withoutResets
  obtain ⟨r, hr, herror⟩ := Option.map_eq_some_iff.mp hstatus
  exact ⟨P, hP, r, hr, herror, (records_are_well_formed hP (World.madeId 1) r hr).1⟩

end Pool

end JobEngine
