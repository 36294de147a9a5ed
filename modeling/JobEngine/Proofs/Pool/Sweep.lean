import JobEngine.Proofs.Listing
import JobEngine.Proofs.Pool.Owned
import JobEngine.Proofs.Solo

/-!
# The units of a sweep

Nobody is at the store, and the jobs that are still running were abandoned.  They are listed, and a
unit for each of them puts it back.  The units go on in any order.

* `Memory.abandoned`, `mem_abandoned`, `nodup_abandoned`   what is listed: each running job, once;
* `Sweeping ids`, `Cleaning`   the steps of such a sweep, and what holds of its units;
* `Reachable.row`, `Reachable.stays`   each record stays as it is, or is put back and then stays;
* `Reachable.performs`   whatever a unit asks of the store, the answer is there;
* `Reachable.smooth`     nothing that a unit hears is a failure.
-/

namespace JobEngine

open Program Run Memory

/-! ## what is listed -/

/-- The listing of a sweep. -/
def Query.abandoned : Query := { filter := { statuses := some [.running] }, limit := none }

namespace Memory

variable {m : Memory} {id : JobId}

/-- The jobs that a sweep lists. -/
def abandoned (m : Memory) : List JobId :=
  (Query.abandoned.select m.rows.values).items.map Job.id

theorem abandoned_eq (m : Memory) :
    m.abandoned = (Query.abandoned.ordered m.rows.values).map Job.id := rfl

theorem goes_abandoned (w : Calm) (n : Nat) (m : Memory) :
    Run.abandoned.Goes w n m
      [⟨.store (.list .abandoned), .ok (Query.abandoned.select m.rows.values)⟩] (.ok m.abandoned)
      m :=
  goes_bind (x := Run.list .abandoned) (f := fun page => pure (page.items.map Job.id))
    (goes_check (p := Run.store (.list .abandoned)) (runs_store rfl)) (goes_pure _)

theorem abandoned_perm (m : Memory) :
    m.abandoned.Perm ((m.rows.values.filter fun j => j.status = .running).map Job.id) := by
  have hadmits : Query.abandoned.filter.admits = fun j => decide (j.status = .running) := by
    funext j
    cases h : j.status <;> simp [Query.abandoned, Filter.admits, Filter.holds, h]
  rw [abandoned_eq, ← hadmits]
  exact (Query.ordered_perm ..).map _

theorem mem_abandoned (hm : m.Coherent) :
    id ∈ m.abandoned ↔ ∃ j, m.rows.get? id = some j ∧ j.status = .running := by
  rw [m.abandoned_perm.mem_iff, List.mem_map]
  constructor
  · rintro ⟨j, hj, rfl⟩
    obtain ⟨hmem, hrun⟩ := List.mem_filter.mp hj
    exact ⟨j, hm.mem_values.mp hmem, of_decide_eq_true hrun⟩
  · rintro ⟨j, hrow, hrun⟩
    obtain rfl := hm.filed hrow
    exact ⟨j, List.mem_filter.mpr ⟨hm.mem_values.mpr hrow, decide_eq_true hrun⟩, rfl⟩

theorem abandoned_present (hm : m.Coherent) : ∀ id ∈ m.abandoned, ∃ j, m.rows.get? id = some j :=
  fun _ hid => ((mem_abandoned hm).mp hid).imp fun _ hj => hj.1

theorem nodup_abandoned (hm : m.Coherent) : m.abandoned.Nodup :=
  m.abandoned_perm.nodup_iff.mpr (hm.nodup_ids.sublist (List.filter_sublist.map _))

end Memory

/-! ## one unit -/

/-- All that a unit of a sweep hears: nothing fails, and it finds its record. -/
inductive Smooth : Heard → Prop
  | begins (s : SessionId) : Smooth ⟨.store .begin, .ok s⟩
  | finds (s : SessionId) (id : JobId) (j : Job) : Smooth ⟨.store (.get s id true), .ok (some j)⟩
  | clock (now : EngineCall.clock.Answer) : Smooth ⟨.clock, now⟩
  | marks (s : SessionId) (id : JobId) (c : Changes) : Smooth ⟨.store (.update s id c), .ok 1⟩
  | commits (s : SessionId) : Smooth ⟨.store (.commit s), .ok ()⟩
  | rollsBack (s : SessionId) : Smooth ⟨.store (.rollback s), .ok ()⟩

theorem Task.Fits.view_of_cleans {t : Task} {m : Memory} {st : Stage} (hfits : t.Fits m st)
    (ht : t.cleans) : st.view = none := by
  have hno (v : Job) : t.runs ≠ some v.id := by
    cases t with
    | clean => exact nofun
    | _ => exact nomatch ht
  cases st with
  | loaded v | invoked v how => exact absurd hfits (hno v)
  | recording v how s | recorded v how s c => exact absurd hfits.1 (hno v)
  | _ => rfl

/-! ## the units of a sweep -/

/-- The answer is what the store gives in the state that it is in. -/
def Deed.Performed (d : Deed) : Prop :=
  ∀ (c : StoreCall) (a : c.Answer), d.heard = ⟨.store c, a⟩ →
    d.before.perform c = (some a, d.after)

namespace Pool

/-- The steps of a sweep: a unit starts for a job that is listed and has none yet, a unit gets an
answer of a store that does not fail, and the clock goes. -/
inductive Sweeping (ids : List JobId) (P : Pool) : Pool → Prop
  | start {tag : String} {id : JobId} : id ∈ ids → (∀ w ∈ P.units, w.task.job ≠ some id) →
    Sweeping ids P (P.start (.clean tag id))
  | answer {d : Deed} {P' : Pool} : P.Happens d P' → d.Performed → Sweeping ids P P'
  | clock (now : Instant) : Sweeping ids P { P with now }

/-- The units put back jobs that are listed, one unit for each job, and none is abandoned. -/
structure Cleaning (ids : List JobId) (P : Pool) : Prop where
  unit {u : Nat} {w : WorkUnit} : P.units[u]? = some w →
    ∃ tag id p, w.task = .clean tag id ∧ id ∈ ids ∧ w.rest = some p
  once {u v : Nat} {w w' : WorkUnit} {id : JobId} : P.units[u]? = some w →
    P.units[v]? = some w' → w.task.job = some id → w'.task.job = some id → u = v

variable {ids : List JobId} {P P' Q : Pool} {d : Deed} {m : Memory} {now : Instant} {u : Nat}
  {w : WorkUnit} {p : Program Engine Upshot} {id : JobId}

theorem Sweeping.performed (h : Sweeping ids P P') (hd : P.Happens d P') : d.Performed := by
  have hpast := hd.past_eq
  cases h with
  | start | clock => exact absurd hpast (by simp [Pool.start])
  | answer he hperf =>
    obtain rfl := List.singleton_inj.mp (List.append_cancel_left (he.past_eq.symm.trans hpast))
    exact hperf

theorem cleaning_step (hC : P.Cleaning ids) (h : Sweeping ids P P') : P'.Cleaning ids := by
  cases h with
  | @start tag id hid hnew =>
    refine ⟨fun hu => ?_, fun {u v w w' k} hu hv hk hk' => ?_⟩
    · rcases unit_start hu with hu | ⟨_, rfl⟩
      · exact hC.unit hu
      · exact ⟨tag, id, _, rfl, hid, rfl⟩
    · -- the new unit is the only one with its job
      have hother {v : Nat} {w' : WorkUnit} (hv : P.units[v]? = some w')
          (hk' : w'.task.job = some k) (hk : (Task.clean tag id).job = some k) : False :=
        hnew w' (List.mem_of_getElem? hv) (hk'.trans hk.symm)
      rcases unit_start hu with hu | ⟨e, rfl⟩ <;> rcases unit_start hv with hv | ⟨e', rfl⟩
      · exact hC.once hu hv hk hk'
      · exact (hother hu hk hk').elim
      · exact (hother hv hk' hk).elim
      · exact e.trans e'.symm
  | answer hd _ =>
    obtain @⟨v, w, c, k, a, m, hw, hk, ha⟩ := hd
    have hlt := At.lt ⟨hw, hk⟩
    have hback {u : Nat} {w' : WorkUnit} (hu : (P.goOn v w ⟨c, a⟩ (k a) m).units[u]? = some w') :
        ∃ w₀ p, P.units[u]? = some w₀ ∧ w₀.task = w'.task ∧
          (w'.rest = w₀.rest ∨ w'.rest = some p) := by
      rcases at_set hlt hu with ⟨rfl, rfl⟩ | ⟨_, hu⟩
      · exact ⟨w, (k a).settled, hw, rfl, Or.inr rfl⟩
      · exact ⟨w', (k a).settled, hu, rfl, Or.inl rfl⟩
    refine ⟨fun hu => ?_, fun hu hv hk hk' => ?_⟩
    · obtain ⟨w₀, p, hu, htask, hrest⟩ := hback hu
      obtain ⟨tag, id, p₀, hclean, hid, hp⟩ := hC.unit hu
      rcases hrest with hrest | hrest
      · exact ⟨tag, id, p₀, htask ▸ hclean, hid, hrest.trans hp⟩
      · exact ⟨tag, id, p, htask ▸ hclean, hid, hrest⟩
    · obtain ⟨_, _, hu, htask, _⟩ := hback hu
      obtain ⟨_, _, hv, htask', _⟩ := hback hv
      exact hC.once hu hv (htask ▸ hk) (htask' ▸ hk')
  | clock now => exact ⟨hC.unit, hC.once⟩

theorem Reachable.cleaning (h : Reachable (Sweeping ids) (fresh m now) P) : P.Cleaning ids :=
  h.invariant ⟨fun h => by simp at h, fun h => by simp at h⟩
    fun _ _ _ hC _ hr => cleaning_step hC hr

theorem Cleaning.at_unit (hC : P.Cleaning ids) (hu : P.At u w p) :
    ∃ tag id, w.task = .clean tag id ∧ id ∈ ids := by
  obtain ⟨tag, id, _, htask, hid, _⟩ := hC.unit hu.unit
  exact ⟨tag, id, htask, hid⟩

/-! ## records -/

/-- The record was running and is pending now; else only the time of its last change is new. -/
def PutBack (o o' : Option Job) : Prop :=
  ∃ j t, o = some j ∧ j.status = .running ∧
    o' = some { j with status := .pending, updated := t }

theorem Cleaning.happens (hC : P.Cleaning ids) (hP : P.Sound) (hd : P.Happens d P') :
    P'.memory.rows = P.memory.rows ∨
      ∃ j t, P.memory.rows.get? j.id = some j ∧ j.status = .running ∧ ∀ k,
        P'.memory.rows.get? k =
          if j.id = k then some { j with status := .pending, updated := t }
          else P.memory.rows.get? k := by
  have hclean : ∃ tag id, d.task = .clean tag id := by
    obtain ⟨w, p, hu, htask, _⟩ := hd.at_before
    obtain ⟨tag, id, hw, _⟩ := hC.at_unit hu
    exact ⟨tag, id, htask.symm.trans hw⟩
  obtain ⟨tag, id, htask⟩ := hclean
  rw [hd.memory_eq.1, hd.memory_eq.2]
  cases hP.filing hd with
  | nothing hrows => exact Or.inl hrows
  | @mark s j c _ _ _ hmark hrow hfiles =>
    obtain ⟨hrun, t, rfl⟩ := hmark.of_cleans (by rw [htask]; rfl)
    exact Or.inr ⟨j, t, hrow, hrun, hfiles.after⟩
  | outcome _ _ hruns => rw [htask] at hruns; exact nomatch hruns
  | insert hcreate => exact nomatch htask.symm.trans hcreate

/-- What a step of a sweep does to a record. -/
theorem Cleaning.step (hC : P.Cleaning ids) (hP : P.Sound) (hs : P.Step P') (k : JobId) :
    P'.memory.rows.get? k = P.memory.rows.get? k ∨
      PutBack (P.memory.rows.get? k) (P'.memory.rows.get? k) := by
  rcases hs.cases_past with ⟨d, hd⟩ | ⟨_, hrows⟩
  · rcases hC.happens hP hd with hrows | ⟨j, t, hrow, hrun, hafter⟩
    · exact Or.inl (by rw [hrows])
    · by_cases e : j.id = k
      · subst e
        exact Or.inr ⟨j, t, hrow, hrun, (hafter _).trans (if_pos rfl)⟩
      · exact Or.inl ((hafter k).trans (if_neg e))
  · exact Or.inl (by rw [hrows])

/-- Each record stays as it is, or is put back. -/
theorem Reachable.row (h : Reachable (Sweeping ids) (fresh m now) P) (hm : m.Quiet) (k : JobId) :
    P.memory.rows.get? k = m.rows.get? k ∨ PutBack (m.rows.get? k) (P.memory.rows.get? k) := by
  induction h with
  | refl => exact Or.inl rfl
  | step h hs _ ih =>
    rcases h.cleaning.step (h.sound hm) hs k with hsame | ⟨j, t, hj, hrun, hj'⟩
    · rwa [hsame]
    · rcases ih with ih | ⟨j₀, t₀, _, _, hj₀⟩
      · exact Or.inr ⟨j, t, ih.symm.trans hj, hrun, hj'⟩
      · -- what was put back is pending
        obtain rfl := Option.some.inj (hj₀.symm.trans hj)
        exact nomatch hrun

/-- A record that does not run is left alone from then on. -/
theorem Reachable.stays (hQ : Reachable (Sweeping ids) (fresh m now) Q) (hm : m.Quiet)
    (h : Reachable (Sweeping ids) Q P) {j : Job} (hj : Q.memory.rows.get? id = some j)
    (hrun : j.status ≠ .running) : P.memory.rows.get? id = some j := by
  induction h with
  | refl => exact hj
  | step h hs _ ih =>
    have h := hQ.trans h
    rcases h.cleaning.step (h.sound hm) hs id with hsame | ⟨j', t, hj', hrun', _⟩
    · exact hsame.trans ih
    · obtain rfl := Option.some.inj (ih.symm.trans hj')
      exact absurd hrun' hrun

/-- Where nothing runs, a sweep changes nothing. -/
theorem Reachable.rows_eq_of_idle (h : Reachable (Sweeping ids) (fresh m now) P) (hm : m.Quiet)
    (hidle : ∀ k j, m.rows.get? k = some j → j.status ≠ .running) :
    P.memory.rows = m.rows := by
  induction h with
  | refl => rfl
  | step h hs _ ih =>
    rcases hs.cases_past with ⟨d, hd⟩ | ⟨_, hrows⟩
    · rcases h.cleaning.happens (h.sound hm) hd with hrows | ⟨j, _, hrow, hrun, _⟩
      · exact hrows.trans ih
      · exact absurd hrun (hidle _ _ (ih ▸ hrow))
    · exact hrows.trans ih

/-! ## what a unit of a sweep hears -/

section
variable (h : Reachable (Sweeping ids) (fresh m now) P) (hm : m.Quiet)
  (hids : ∀ id ∈ ids, ∃ j, m.rows.get? id = some j)
include h hm hids

/-- Records are not lost. -/
theorem Reachable.present (hid : id ∈ ids) : ∃ j, P.memory.rows.get? id = some j := by
  obtain ⟨j, hj⟩ := hids id hid
  rcases h.row hm id with hsame | ⟨_, _, _, _, hback⟩
  · exact ⟨j, hsame.trans hj⟩
  · exact ⟨_, hback⟩

/-- Whatever a unit asks of the store, the answer is there. -/
theorem Reachable.performs {c : EngineCall} {k : c.Answer → Program Engine Upshot}
    (hu : P.At u w (.call c k)) :
    c = .clock ∨ ∃ c' a m', c = .store c' ∧ P.memory.perform c' = (some a, m') ∧
      Smooth ⟨.store c', a⟩ := by
  have hP := h.sound hm
  have hC := h.cleaning
  obtain ⟨tag, id, htask, hid⟩ := hC.at_unit hu
  obtain ⟨r, hr⟩ := h.present hm hids hid
  have hmay := (hP.keeps hu).1
  have hfits := hP.fits hu
  have hsession := hP.session hu
  generalize P.stage u w.task = st at hmay hfits hsession
  rw [htask] at hmay hfits
  have hview := hfits.view_of_cleans rfl
  cases hmay with
  | log => exact absurd rfl (hP.silent _ hu)
  | enter => exact Or.inr ⟨_, _, _, rfl, rfl, .begins _⟩
  | @fetch _ _ s hjob =>
    obtain rfl := Option.some.inj hjob
    obtain ⟨held, hs⟩ := hfits
    -- another unit that held the row would be a unit for this job
    have hfree (s' : SessionId) (hl : P.memory.locks.get? id = some s') : s' = s := by
      obtain ⟨own, hown, _⟩ := hP.coherent.locked_iff.mp hl
      obtain ⟨v, w', p', hv, hvs⟩ := (h.owned hm).session hown
      have hjob' := (h.owned hm).lock hv hvs hl
      obtain rfl := hC.once hu.unit hv.unit (htask ▸ rfl) hjob'
      exact Option.some.inj (hvs.symm.trans hsession)
    obtain ⟨m', hget⟩ := get_free hP.coherent hs hfree
    rw [current_eq hs] at hget
    have hsees : ((⟨[], held⟩ : Session).staged.get? id).or (P.memory.rows.get? id) = some r := hr
    rw [hsees] at hget
    exact Or.inr ⟨_, _, m', rfl, hget, .finds ..⟩
  | stamp => exact Or.inl rfl
  | @mark _ s j c hmark =>
    obtain ⟨_, held, hs, hheld, hrow⟩ := hfits
    obtain ⟨_, t, rfl⟩ := hmark.of_cleans rfl
    have hlock : P.memory.acquire s j.id = (.held, P.memory) :=
      if_pos (session_of_get? hs ▸ hheld)
    have hseen : P.memory.current s j.id = some j := (current_eq hs j.id).trans hrow
    have hmade := update_seen (c := { status := some .pending, updated := some t }) hseen
      (congrArg Prod.fst hlock)
    rw [if_neg fun ⟨_, h, _⟩ => nomatch h] at hmade
    obtain ⟨m', hupdate, _⟩ := hmade
    exact Or.inr ⟨_, _, m', rfl, hupdate, .marks ..⟩
  | commit => exact Or.inr ⟨_, _, _, rfl, rfl, .commits _⟩
  | rollback => exact Or.inr ⟨_, _, _, rfl, rfl, .rollsBack _⟩
  | publish hv | time hv => exact nomatch hview.symm.trans hv
  | reenter | settle => exact nomatch hview

/-- No unit is ever stuck. -/
theorem Reachable.goesOn {c : EngineCall} {k : c.Answer → Program Engine Upshot}
    (hu : P.At u w (.call c k)) : ∃ d P', P.Happens d P' ∧ d.Performed ∧ d.unit = u := by
  rcases h.performs hm hids hu with rfl | ⟨c', a, m', rfl, hperf, _⟩
  · refine ⟨_, _, .mk hu.unit hu.rest .clock, fun c a e => ?_, rfl⟩
    exact nomatch (Sigma.mk.inj e).1
  · refine ⟨_, _, .mk hu.unit hu.rest (.performed hperf), fun c b e => ?_, rfl⟩
    change (⟨.store c', a⟩ : Heard) = ⟨.store c, b⟩ at e
    cases e
    exact hperf

theorem Reachable.smooth {x : Heard} (hx : x ∈ P.told u) : Smooth x := by
  obtain ⟨as, bs, hsplit⟩ := List.append_of_mem hx
  obtain ⟨Q, Q', d, _, hQ, _, hd, hr, _, _, rfl⟩ := h.told_split hsplit
  have hperf := hr.performed hd
  obtain @⟨u, w, c, k, a, m', hw, hk, ha⟩ := hd
  rcases hQ.performs hm hids ⟨hw, hk⟩ with rfl | ⟨c', a', m'', rfl, hp, hsmooth⟩
  · exact .clock a
  · have hsame := (hperf c' a rfl).symm.trans hp
    obtain rfl := Option.some.inj (Prod.mk.inj hsame).1
    exact hsmooth

end

end Pool

end JobEngine
