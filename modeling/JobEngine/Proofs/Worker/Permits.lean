import JobEngine.Proofs.Worker.Run

/-!
# Permits and units

* `Worker.Counted`          the state agrees with the history, and no permit is missing;
* `Counted.step`            a step keeps it so;
* `Run.counted`             so it is at every point of a run;
* `step_dispatch_iff`       a job that waits is sent off if there is a permit;
* `units_are_bounded`       at all times the free permits and the units alive are together as many
                            as the worker is set up for.

A unit gives its permit back in the moment in which it is gone, however it ends.
-/

namespace JobEngine

namespace Worker

variable {c : WorkerConfig} {w w' : Worker} {h : History} {e : Event} {os : List Order}

/-- The state agrees with the history, and no permit is missing. -/
structure Counted (c : WorkerConfig) (h : History) (w : Worker) : Prop where
  orderly : Orderly h w.nextUnit
  alive : alive h = w.live.map Prod.fst
  permits : w.free + w.live.length = c.permits

/-- Without one that is gone there is one less. -/
theorem length_filter_bne {units : List Nat} {u : Nat} (h : units.Nodup) (hu : u ∈ units) :
    (units.filter (· != u)).length + 1 = units.length := by
  rw [← h.erase_eq_filter, List.length_erase_add_one hu]

/-- A step keeps count. -/
theorem Counted.step (hw : Counted c h w) (hstep : w.step c e = some (w', os)) :
    Counted c (h ++ [(e, os)]) w' := by
  have hpermits := hw.permits
  cases change_of_step hstep with
  | begins id free live nextUnit units =>
    dsimp only at free live nextUnit units
    have halive := alive_of_begins (e := .dispatch) units rfl
      (mt (hw.orderly.known _) hw.orderly.not_begun)
    refine ⟨nextUnit ▸ hw.orderly.begins units rfl, ?alive, ?permits⟩
    case alive =>
      rw [halive, live, List.map_append, hw.alive]
      rfl
    case permits =>
      rw [live, List.length_append, List.length_singleton]
      omega
  | ends unit id he hmem free live nextUnit units =>
    dsimp only at free live nextUnit units
    have hunit : unit ∈ w.live.map Prod.fst := List.mem_map_of_mem hmem
    have hlive : w'.live.map Prod.fst = (w.live.map Prod.fst).filter (· != unit) := by
      rw [live, List.filter_map]
      rfl
    refine ⟨nextUnit ▸ hw.orderly.ends units he (hw.alive ▸ hunit), ?alive, ?permits⟩
    case alive => rw [alive_of_ends units he, hlive, hw.alive]
    case permits =>
      have hless := length_filter_bne (hw.alive ▸ hw.orderly.alive_once) hunit
      rw [← hlive, List.length_map, List.length_map] at hless
      omega
  | none he free live nextUnit units =>
    dsimp only at free live nextUnit units
    refine ⟨nextUnit ▸ hw.orderly.none units he, ?alive, ?permits⟩
    case alive => rw [alive_of_none units he, live, hw.alive]
    case permits => rw [live, free, hpermits]

/-- At every point of a run the state agrees with the history. -/
theorem Run.counted (hrun : Run c h w) : Counted c h w := by
  induction hrun with
  | start cancelled => exact ⟨.nil, rfl, rfl⟩
  | step before hstep ih => exact ih.step hstep

/-- The jobs of a listing that have not been sent off. -/
def Phase.todo : Phase → List JobId
  | .sweeping ids | .dispatching ids => ids
  | _ => []

/-- A job that waits is sent off if there is a permit. -/
theorem step_dispatch_iff :
    (∃ next, w.step c .dispatch = some next) ↔ w.phase.todo ≠ [] ∧ w.free ≠ 0 := by
  unfold step
  dsimp only
  cases hphase : w.phase with
  | sweeping ids =>
    cases ids with
    | nil => simp [Phase.todo]
    | cons id rest => by_cases hfree : w.free = 0 <;> simp [Phase.todo, hfree]
  | dispatching ids =>
    cases ids with
    | nil => simp [Phase.todo]
    | cons id rest => by_cases hfree : w.free = 0 <;> simp [Phase.todo, hfree]
  | _ => simp [Phase.todo]

/-- **Execution is bounded.**  At every point of every run, whatever the listings give, however the
units end and whenever the worker is cancelled, the units alive are at most as many as the worker
is set up for, where none counts as one, and together with the free permits they are exactly as
many.  A unit begins once and is gone once, and only behind its begin.  So no end of a unit loses a
permit or makes another one: a job that waits is sent off if fewer units are alive. -/
theorem units_are_bounded (hrun : Run c h w) :
    (alive h).length ≤ max c.execSize 1 ∧ w.free + (alive h).length = max c.execSize 1 ∧
      (begun h).Nodup ∧ (gone h).Nodup ∧ (∀ u ∈ gone h, u ∈ begun h) ∧
      ((∃ next, w.step c .dispatch = some next) ↔
        w.phase.todo ≠ [] ∧ (alive h).length < max c.execSize 1) := by
  have hw := hrun.counted
  have hpermits : w.free + (alive h).length = max c.execSize 1 := by
    rw [hw.alive, List.length_map]
    exact hw.permits
  refine ⟨by omega, hpermits, hw.orderly.once, hw.orderly.goneOnce, hw.orderly.known,
    step_dispatch_iff.trans ?_⟩
  exact and_congr_right fun _ => by omega

/-- A worker is set up for no unit and so has one permit.  A unit of its sweep breaks down, another
is begun for a due job, and the worker is cancelled; the unit outlives its patience and is aborted,
but is not yet gone. -/
def impatient : List Event :=
  [.abandonedListed (.ok [⟨1#128⟩]), .dispatch, .unitEnded 0 .panicked, .join,
    .dueListed (.ok [⟨2#128⟩, ⟨3#128⟩]), .dispatch, .cancel, .quit, .quit, .graceOver]

theorem aborted_unit_holds_permit :
    ∃ h w, Run { execSize := 0 } h w ∧ w.phase = .aborting ∧ begun h = [0, 1] ∧ gone h = [0] ∧
      (alive h).length ≤ 1 ∧ w.free + (alive h).length = 1 ∧ w.free = 0 := by
  obtain ⟨h, w, hrun, hf⟩ := run_of_happen (c := { execSize := 0 }) impatient
    (fun h w => (w.phase, begun h, gone h, w.free)) (v := (.aborting, [0, 1], [0], 0)) (by decide)
  obtain ⟨hphase, hbegun, hgone, hfree⟩ : w.phase = .aborting ∧ begun h = [0, 1] ∧ gone h = [0] ∧
      w.free = 0 := by simpa only [Prod.mk.injEq] using hf
  obtain ⟨hbound, hpermits, -⟩ := units_are_bounded hrun
  exact ⟨h, w, hrun, hphase, hbegun, hgone, hbound, hpermits, hfree⟩

end Worker

/-- In simulated time, too, no more units are alive than there are permits. -/
theorem WorkerRun.live_le {E : Effects} {S : Type} (p : Workplace E S) (c : WorkerConfig)
    (sim : Sim E S WorkResult) (cancelAfter : Option Nat) (fuel : Nat) :
    (run p fuel (start p c sim cancelAfter)).worker.live.length ≤ max c.execSize 1 := by
  obtain ⟨h, hrun⟩ := exists_run p c sim cancelAfter fuel
  have hpermits := hrun.counted.permits
  unfold WorkerConfig.permits at hpermits
  omega

end JobEngine
