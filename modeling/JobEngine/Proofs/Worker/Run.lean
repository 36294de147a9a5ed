import JobEngine.Simulation.WorkerRun
import Mathlib.Data.List.Nodup

/-!
# Runs of a worker

What has happened to a worker is told by its events and by the orders behind each of them.  A unit
begins with an order and is gone with an event, and between the two it is alive.

* `Worker.Run`              the worker behind a history;
* `Worker.begun`, `gone`, `alive`   the units that a history tells of;
* `Worker.Orderly`          each of them begins once and is gone once;
* `Worker.Change`           what a step does to permits and units;
* `Worker.change_of_step`   no step does anything else;
* `WorkerRun.exists_run`    a worker in simulated time has a history, too.
-/

namespace JobEngine

namespace Worker

/-- The unit that begins with an order. -/
def Order.begins? : Order → Option Nat
  | .clean unit _ | .run unit _ _ => some unit
  | _ => none

/-- The unit that is gone with an event. -/
def Event.ends? : Event → Option Nat
  | .unitEnded unit _ | .dropped unit => some unit
  | _ => none

/-- Events, each with the orders behind it. -/
abbrev History := List (Event × List Order)

/-- The worker behind a history that may happen. -/
inductive Run (c : WorkerConfig) : History → Worker → Prop
  | start (cancelled : Bool) : Run c [] (Worker.start c cancelled).1
  | step {h : History} {w w' : Worker} {e : Event} {os : List Order} (before : Run c h w)
      (hstep : w.step c e = some (w', os)) : Run c (h ++ [(e, os)]) w'

/-- The units begun, in their order. -/
def begun (h : History) : List Nat := h.flatMap fun x => x.2.filterMap Order.begins?

/-- The units gone, in their order. -/
def gone (h : History) : List Nat := h.filterMap fun x => x.1.ends?

/-- The units begun that are not gone. -/
def alive (h : History) : List Nat := (begun h).filter fun u => decide (u ∉ gone h)

theorem begun_concat (h : History) (e : Event) (os : List Order) :
    begun (h ++ [(e, os)]) = begun h ++ os.filterMap Order.begins? := by
  unfold begun
  rw [List.flatMap_append, List.flatMap_singleton]

theorem gone_concat (h : History) (e : Event) (os : List Order) :
    gone (h ++ [(e, os)]) = gone h ++ e.ends?.toList := by
  unfold gone
  rw [List.filterMap_append]
  cases he : e.ends? <;> simp [he]

variable {c : WorkerConfig} {w : Worker} {h : History} {e : Event} {os : List Order} {unit : Nat}

theorem alive_of_begins (hos : os.filterMap Order.begins? = [unit]) (he : e.ends? = none)
    (hunit : unit ∉ gone h) : alive (h ++ [(e, os)]) = alive h ++ [unit] := by
  have hnew : [unit].filter (fun u => decide (u ∉ gone h)) = [unit] :=
    List.filter_cons_of_pos (decide_eq_true hunit)
  unfold alive
  rw [begun_concat, gone_concat, hos, he, Option.toList_none, List.append_nil, List.filter_append,
    hnew]

theorem alive_of_ends (hos : os.filterMap Order.begins? = []) (he : e.ends? = some unit) :
    alive (h ++ [(e, os)]) = (alive h).filter (· != unit) := by
  unfold alive
  rw [begun_concat, gone_concat, hos, he, Option.toList_some, List.append_nil, List.filter_filter]
  refine List.filter_congr fun u _ => ?_
  rw [Bool.eq_iff_iff, Bool.and_eq_true, decide_eq_true_iff, decide_eq_true_iff, bne_iff_ne,
    List.mem_append, List.mem_singleton, not_or]
  exact and_comm

theorem alive_of_none (hos : os.filterMap Order.begins? = []) (he : e.ends? = none) :
    alive (h ++ [(e, os)]) = alive h := by
  unfold alive
  rw [begun_concat, gone_concat, hos, he, Option.toList_none, List.append_nil, List.append_nil]

/-! ## numbers of units -/

/-- Units have begun once each, under numbers below `n`, and only they are gone, once each. -/
structure Orderly (h : History) (n : Nat) : Prop where
  fresh : ∀ u ∈ begun h, u < n
  once : (begun h).Nodup
  goneOnce : (gone h).Nodup
  known : ∀ u ∈ gone h, u ∈ begun h

namespace Orderly

variable {n : Nat}

theorem nil : Orderly [] 0 := ⟨fun _ => nofun, List.nodup_nil, List.nodup_nil, fun _ => nofun⟩

theorem alive_once (ho : Orderly h n) : (alive h).Nodup := ho.once.filter _

theorem not_begun (ho : Orderly h n) : n ∉ begun h := fun hn => Nat.lt_irrefl n (ho.fresh n hn)

theorem begins (ho : Orderly h n) (hos : os.filterMap Order.begins? = [n]) (he : e.ends? = none) :
    Orderly (h ++ [(e, os)]) (n + 1) := by
  have hbegun : begun (h ++ [(e, os)]) = begun h ++ [n] := by rw [begun_concat, hos]
  have hgone : gone (h ++ [(e, os)]) = gone h := by
    rw [gone_concat, he, Option.toList_none, List.append_nil]
  have honce : (begun h ++ [n]).Nodup :=
    List.concat_eq_append ▸ List.Nodup.concat ho.not_begun ho.once
  refine ⟨fun u hu => ?_, hbegun ▸ honce, hgone ▸ ho.goneOnce, fun u hu => ?_⟩
  · rw [hbegun, List.mem_append, List.mem_singleton] at hu
    rcases hu with hu | rfl
    · exact Nat.lt_succ_of_lt (ho.fresh u hu)
    · exact Nat.lt_succ_self u
  · rw [hgone] at hu
    exact hbegun ▸ List.mem_append_left _ (ho.known u hu)

theorem ends (ho : Orderly h n) (hos : os.filterMap Order.begins? = []) (he : e.ends? = some unit)
    (hunit : unit ∈ alive h) : Orderly (h ++ [(e, os)]) n := by
  have hbegun : begun (h ++ [(e, os)]) = begun h := by rw [begun_concat, hos, List.append_nil]
  have hgone : gone (h ++ [(e, os)]) = gone h ++ [unit] := by
    rw [gone_concat, he, Option.toList_some]
  obtain ⟨hknown, hnot⟩ := List.mem_filter.mp hunit
  have honce : (gone h ++ [unit]).Nodup :=
    List.concat_eq_append ▸ List.Nodup.concat (of_decide_eq_true hnot) ho.goneOnce
  refine ⟨hbegun ▸ ho.fresh, hbegun ▸ ho.once, hgone ▸ honce, fun u hu => ?_⟩
  rw [hgone, List.mem_append, List.mem_singleton] at hu
  rw [hbegun]
  rcases hu with hu | rfl
  · exact ho.known u hu
  · exact hknown

theorem none (ho : Orderly h n) (hos : os.filterMap Order.begins? = []) (he : e.ends? = none) :
    Orderly (h ++ [(e, os)]) n := by
  have hbegun : begun (h ++ [(e, os)]) = begun h := by rw [begun_concat, hos, List.append_nil]
  have hgone : gone (h ++ [(e, os)]) = gone h := by
    rw [gone_concat, he, Option.toList_none, List.append_nil]
  exact ⟨hbegun ▸ ho.fresh, hbegun ▸ ho.once, hgone ▸ ho.goneOnce, hgone ▸ hbegun ▸ ho.known⟩

end Orderly

/-! ## one step -/

/-- What a step does to permits and units. -/
inductive Change (w : Worker) : Event → Worker × List Order → Prop
  /-- A unit gets a permit and a number of its own. -/
  | begins {next : Worker × List Order} (id : JobId) (free : w.free = next.1.free + 1)
      (live : next.1.live = w.live ++ [(w.nextUnit, id)])
      (nextUnit : next.1.nextUnit = w.nextUnit + 1)
      (units : next.2.filterMap Order.begins? = [w.nextUnit]) : Change w .dispatch next
  /-- A unit alive gives its permit back. -/
  | ends {e : Event} {next : Worker × List Order} (unit : Nat) (id : JobId)
      (he : e.ends? = some unit) (alive : (unit, id) ∈ w.live) (free : next.1.free = w.free + 1)
      (live : next.1.live = w.live.filter (·.1 != unit)) (nextUnit : next.1.nextUnit = w.nextUnit)
      (units : next.2.filterMap Order.begins? = []) : Change w e next
  | none {e : Event} {next : Worker × List Order} (he : e.ends? = none)
      (free : next.1.free = w.free) (live : next.1.live = w.live)
      (nextUnit : next.1.nextUnit = w.nextUnit)
      (units : next.2.filterMap Order.begins? = []) : Change w e next

theorem begins?_reports (message : String) (ended : List Bool) :
    (reports message ended).filterMap Order.begins? = [] := by
  unfold reports
  rw [List.filterMap_map]
  exact List.filterMap_eq_nil_iff.mpr fun _ _ => rfl

namespace Change

variable {next : Worker × List Order}

/-- Orders that begin no unit may go before a step. -/
theorem after {orders : List Order} (horders : orders.filterMap Order.begins? = [])
    (h : Change w e next) : Change w e (Worker.after orders next) := by
  have hunits : (orders ++ next.2).filterMap Order.begins? = next.2.filterMap Order.begins? := by
    rw [List.filterMap_append, horders, List.nil_append]
  cases h with
  | begins id free live nextUnit units => exact .begins id free live nextUnit (hunits.trans units)
  | ends unit id he alive free live nextUnit units =>
    exact .ends unit id he alive free live nextUnit (hunits.trans units)
  | none he free live nextUnit units => exact .none he free live nextUnit (hunits.trans units)

theorem stop (he : e.ends? = .none) : Change w e w.stop := .none he rfl rfl rfl rfl

theorem drain (c : WorkerConfig) (he : e.ends? = .none) : Change w e (w.drain c) := by
  unfold Worker.drain
  dsimp only
  split
  · exact stop he
  · exact .none he rfl rfl rfl rfl

theorem again (c : WorkerConfig) (he : e.ends? = .none) : Change w e (w.again c) := by
  unfold Worker.again
  split
  · exact drain c he
  · exact .none he rfl rfl rfl rfl

theorem rest (c : WorkerConfig) (he : e.ends? = .none) : Change w e (w.rest c) := by
  refine .none he rfl rfl rfl ?_
  unfold Worker.rest
  rw [List.filterMap_append, begins?_reports]
  rfl

/-- It does not matter which of the ended units were looked after. -/
theorem of_ended {ended : List Bool} (h : Change { w with ended } e next) : Change w e next := by
  cases h with
  | begins id free live nextUnit units => exact .begins id free live nextUnit units
  | ends unit id he alive free live nextUnit units =>
    exact .ends unit id he alive free live nextUnit units
  | none he free live nextUnit units => exact .none he free live nextUnit units

theorem join (message : String) {go : Worker → Worker × List Order}
    (hgo : ∀ w', Change w' e (go w')) (he : e.ends? = .none) :
    let out := reports message w.ended
    let w' := { w with ended := [] }
    Change w e (if w'.live.isEmpty then Worker.after out (go w') else (w', out)) := by
  dsimp only
  split
  · exact (of_ended (hgo _)).after (begins?_reports ..)
  · exact .none he rfl rfl rfl (begins?_reports ..)

theorem ending (sweep : Bool) {id : JobId} {how : Ending} (halive : (unit, id) ∈ w.live) :
    Change w (.unitEnded unit how) (w.ending sweep unit id how) := by
  cases how <;> cases sweep <;> exact .ends unit id rfl halive rfl rfl rfl rfl

end Change

/-- No step does anything else to permits and units. -/
theorem change_of_step {next : Worker × List Order} (h : w.step c e = some next) :
    Change w e next := by
  unfold step at h
  split at h
  case h_1 => exact Option.some.inj h ▸ (Change.again c rfl).after rfl
  case h_2 => exact Option.some.inj h ▸ .again c rfl
  case h_3 => exact Option.some.inj h ▸ .none rfl rfl rfl rfl rfl
  case h_4 id rest _ =>
    split at h
    · cases h
    · next hfree =>
      exact Option.some.inj h ▸ .begins id (Nat.succ_pred hfree).symm rfl rfl rfl
  case h_5 => exact Option.some.inj h ▸ .join _ (fun _ => .again c rfl) rfl
  case h_6 => exact Option.some.inj h ▸ (Change.rest c rfl).after rfl
  case h_7 => exact Option.some.inj h ▸ (Change.rest c rfl).after rfl
  case h_8 => exact Option.some.inj h ▸ .none rfl rfl rfl rfl rfl
  case h_9 id rest _ =>
    split at h
    · cases h
    · next hfree =>
      obtain rfl := Option.some.inj h
      have hpermit : w.free = w.free - 1 + 1 := (Nat.succ_pred hfree).symm
      cases rest with
      | nil =>
        have hbegins : (Order.run w.nextUnit id c.execTimeout).begins? = some w.nextUnit := rfl
        refine .begins id hpermit rfl rfl ?_
        show List.filterMap Order.begins? (.run w.nextUnit id c.execTimeout ::
          (reports "execution unit panicked" w.ended ++ [.rest c.pollInterval])) = _
        rw [List.filterMap_cons_some hbegins, List.filterMap_append, begins?_reports]
        rfl
      | cons => exact .begins id hpermit rfl rfl rfl
  case h_10 =>
    split at h
    · exact Option.some.inj h ▸ .rest c rfl
    · cases h
  case h_11 =>
    split at h
    · exact Option.some.inj h ▸ .drain c rfl
    · cases h
  case h_12 => exact Option.some.inj h ▸ .again c rfl
  case h_13 => exact Option.some.inj h ▸ .join _ (fun _ => .stop rfl) rfl
  case h_14 =>
    refine Option.some.inj h ▸ .none rfl rfl rfl rfl ?_
    rw [List.filterMap_append, begins?_reports]
    rfl
  case h_15 unit _ =>
    split at h
    · next halive =>
      obtain ⟨⟨u, id⟩, hu, heq⟩ := List.any_eq_true.mp halive
      obtain rfl : u = unit := eq_of_beq heq
      exact Option.some.inj h ▸ .ends u id rfl hu rfl rfl rfl rfl
    · cases h
  case h_16 =>
    split at h
    · exact Option.some.inj h ▸ .stop rfl
    · cases h
  case h_17 unit how =>
    split at h
    · next u id hu =>
      have heq := List.find?_some hu
      obtain rfl : u = unit := eq_of_beq heq
      exact Option.some.inj h ▸ .ending _ (List.mem_of_find?_eq_some hu)
    · cases h
  case h_18 => cases h
  case h_19 => exact Option.some.inj h ▸ .none rfl rfl rfl rfl rfl
  case h_20 => cases h

end Worker

/-! ## scripts -/

namespace Worker

variable {c : WorkerConfig} {w w' : Worker} {h h' : History}

/-- The history and the worker behind events, if all of them can happen. -/
def happen (c : WorkerConfig) (w : Worker) : List Event → Option (History × Worker)
  | [] => some ([], w)
  | e :: es =>
    match w.step c e with
    | none => none
    | some (w', os) => (happen c w' es).map fun x => ((e, os) :: x.1, x.2)

theorem run_happen {es : List Event} (hrun : Run c h w) (hes : happen c w es = some (h', w')) :
    Run c (h ++ h') w' := by
  induction es generalizing h w h' with
  | nil =>
    obtain ⟨rfl, rfl⟩ := Prod.mk.inj (Option.some.inj hes)
    rwa [List.append_nil]
  | cons e es ih =>
    unfold happen at hes
    split at hes
    · cases hes
    · next w₁ os hstep =>
      obtain ⟨x, hx, heq⟩ := Option.map_eq_some_iff.mp hes
      obtain ⟨rfl, rfl⟩ := Prod.mk.inj heq
      have hrun := ih (hrun.step hstep) hx
      rwa [List.append_assoc] at hrun

/-- What is computed from a script holds of a run. -/
theorem run_of_happen {α : Type} (es : List Event) (f : History → Worker → α) {v : α}
    (hes : (happen c (start c false).1 es).map (fun x => f x.1 x.2) = some v) :
    ∃ h w, Run c h w ∧ f h w = v := by
  obtain ⟨x, hx, hf⟩ := Option.map_eq_some_iff.mp hes
  exact ⟨x.1, x.2, run_happen (.start false) hx, hf⟩

end Worker

/-! ## in simulated time -/

namespace WorkerRun

variable {E : Effects} {S : Type} {c : WorkerConfig} {r : WorkerRun E S}

/-- The worker has come where it stands by a history. -/
def Told (c : WorkerConfig) (r : WorkerRun E S) : Prop :=
  r.config = c ∧ ∃ h, Worker.Run c h r.worker

theorem told_obey (p : Workplace E S) (os : List Worker.Order) (hr : r.Told c) :
    (os.foldl (obey p) r).Told c := by
  induction os generalizing r with
  | nil => exact hr
  | cons o os ih => exact ih (by cases o <;> exact hr)

theorem told_feed (p : Workplace E S) (e : Worker.Event) (hr : r.Told c) : (r.feed p e).Told c := by
  unfold feed
  split
  · exact hr
  · next w os hstep =>
    obtain ⟨rfl, h, hrun⟩ := hr
    exact told_obey p os ⟨rfl, _, hrun.step hstep⟩

theorem told_settle (p : Workplace E S) (fuel : Nat) (hr : r.Told c) :
    (settle p fuel r).Told c := by
  induction fuel generalizing r with
  | zero => exact hr
  | succ fuel ih =>
    unfold settle
    split
    · exact hr
    · exact ih (told_feed p _ hr)

theorem told_tell (hr : r.Told c) : r.tell.Told c := by
  unfold tell
  split <;> exact hr

theorem told_react (p : Workplace E S) (fuel : Nat) (x : Happening WorkResult) (hr : r.Told c) :
    (react p fuel r x).Told c := by
  have hended (task : Nat) (result : Option WorkResult) :
      (react.unitEnded p r task result).Told c := by
    unfold react.unitEnded
    split
    · exact told_tell (told_feed p _ hr)
    · exact hr
  cases x with
  | waiting => exact hr
  | alarm key =>
    unfold react
    dsimp only
    split
    · exact told_settle p fuel (told_feed p _ hr)
    split
    · exact told_settle p fuel (told_feed p _ hr)
    split
    · exact told_settle p fuel (told_feed p _ hr)
    split
    · exact told_settle p fuel hr
    · exact hr
  | ended task result =>
    unfold react
    dsimp only
    split
    · split
      · exact told_settle p fuel (told_feed p _ hr)
      · exact hended task result
    · exact hended task result

theorem told_heed (p : Workplace E S) (fuel : Nat) (hr : r.Told c) : (heed p fuel r).Told c := by
  unfold heed
  split
  · exact told_settle p fuel (told_feed p _ hr)
  · exact hr

theorem told_run (p : Workplace E S) (fuel : Nat) (hr : r.Told c) : (run p fuel r).Told c := by
  induction fuel generalizing r with
  | zero => exact hr
  | succ fuel ih =>
    unfold run
    split
    · exact hr
    split
    · exact hr
    · exact ih (told_react p fuel _ (told_heed p fuel hr))

theorem told_start (p : Workplace E S) (c : WorkerConfig) (sim : Sim E S WorkResult)
    (cancelAfter : Option Nat) : (start p c sim cancelAfter).Told c :=
  told_obey p _ ⟨rfl, _, .start _⟩

/-- A worker in simulated time has a history, however its surroundings behave. -/
theorem exists_run (p : Workplace E S) (c : WorkerConfig) (sim : Sim E S WorkResult)
    (cancelAfter : Option Nat) (fuel : Nat) :
    ∃ h, Worker.Run c h (run p fuel (start p c sim cancelAfter)).worker :=
  (told_run p fuel (told_start p c sim cancelAfter)).2

end WorkerRun

end JobEngine
