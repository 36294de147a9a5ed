import JobEngine.Proofs.Worker.Turn

/-!
# What becomes of the units

A unit that is gone has completed, failed, broken down or been aborted.  The fate of each is read
off the history, and the counters of the worker are held against it.

* `Worker.fate`, `tally`     what became of a unit, and of how many of them;
* `length_eq_tally`          a unit is alive or has one of the four fates;
* `tally_of_some`            the end of a unit adds one to one tally;
* `begun_perm`               a unit puts a job back or runs one;
* `Worker.Accounted`         the counters agree with the history, and sweep and rounds do not mix;
* `Run.accounted`            so it is at every point of a run.
-/

namespace JobEngine

namespace Worker

/-- What becomes of a unit. -/
inductive Fate
  | completed
  | failed
  | panicked
  | aborted
deriving DecidableEq

def Ending.fate : Ending → Fate
  | .ok => .completed
  | .failed _ => .failed
  | .panicked => .panicked

/-- The unit that is gone with an event, and what became of it. -/
def Event.fate? : Event → Option (Nat × Fate)
  | .unitEnded unit how => some (unit, how.fate)
  | .dropped unit => some (unit, .aborted)
  | _ => none

def fates (h : History) : List (Nat × Fate) := h.filterMap fun x => x.1.fate?

/-- What became of a unit; nothing as long as it is alive. -/
def fate (h : History) (unit : Nat) : Option Fate := (fates h).lookup unit

/-- How many of the units have come to a fate. -/
def tally (h : History) (units : List (Nat × JobId)) (f : Option Fate) : Nat :=
  units.countP fun x => decide (fate h x.1 = f)

/-- The counter of a worker for a fate. -/
def count (w : Worker) : Fate → Nat
  | .completed => w.stats.completed
  | .failed => w.stats.failed
  | .panicked => w.panicked
  | .aborted => w.aborted

variable {c : WorkerConfig} {w w' : Worker} {h h' : History} {e : Event} {os : List Order}
  {unit : Nat} {id : JobId} {f g : Fate} {us : List (Nat × JobId)}

theorem Event.ends?_eq (e : Event) : e.ends? = e.fate?.map Prod.fst := by
  cases e <;> rfl

theorem gone_eq (h : History) : gone h = (fates h).map Prod.fst := by
  unfold gone fates
  rw [List.map_filterMap]
  exact List.filterMap_congr fun x _ => x.1.ends?_eq

theorem fates_concat (h : History) (e : Event) (os : List Order) :
    fates (h ++ [(e, os)]) = fates h ++ e.fate?.toList := by
  unfold fates
  rw [List.filterMap_append]
  cases he : e.fate? <;> simp [he]

theorem fate_eq_none : fate h unit = none ↔ unit ∉ gone h := by
  unfold fate
  rw [List.lookup_eq_none_iff, gone_eq, List.mem_map, not_exists]
  refine forall_congr' fun x => ?_
  rw [not_and, bne_iff_ne, ne_comm]

theorem fate_of_none (he : e.fate? = none) : fate (h ++ [(e, os)]) = fate h := by
  funext u
  unfold fate
  rw [fates_concat, he, Option.toList_none, List.append_nil]

theorem fate_of_some (he : e.fate? = some (unit, f)) (hunit : fate h unit = none) (u : Nat) :
    fate (h ++ [(e, os)]) u = if u = unit then some f else fate h u := by
  have hnew : fate (h ++ [(e, os)]) u = (fate h u).or ([(unit, f)].lookup u) := by
    unfold fate
    rw [fates_concat, he, Option.toList_some, List.lookup_append]
  rw [hnew]
  split
  · next heq =>
    subst heq
    rw [hunit]
    simp
  · next hne =>
    rw [List.lookup_cons, beq_false_of_ne hne]
    exact Option.or_none

/-- Every unit is alive or has come to one of the four fates. -/
theorem length_eq_tally (h : History) (units : List (Nat × JobId)) :
    units.length = tally h units (some .completed) + tally h units (some .failed) +
      tally h units (some .panicked) + tally h units (some .aborted) + tally h units none := by
  unfold tally
  induction units with
  | nil => rfl
  | cons x units ih =>
    simp only [List.countP_cons, List.length_cons, decide_eq_true_eq]
    rcases hx : fate h x.1 with - | _ | _ | _ | _ <;> simp <;> omega

theorem tally_of_none (he : e.fate? = none) (units : List (Nat × JobId)) (f : Option Fate) :
    tally (h ++ [(e, os)]) units f = tally h units f := by
  unfold tally
  rw [fate_of_none he]

/-- A unit that was alive adds to the tally of its fate, if it is one of those counted. -/
theorem tally_of_some (he : e.fate? = some (unit, f)) (hunit : fate h unit = none)
    (hunits : (us.map Prod.fst).Nodup) (g : Fate) :
    tally (h ++ [(e, os)]) us (some g) =
      tally h us (some g) + if g = f ∧ unit ∈ us.map Prod.fst then 1 else 0 := by
  unfold tally
  simp only [fate_of_some he hunit]
  induction us with
  | nil => simp
  | cons x us ih =>
    rw [List.map_cons, List.nodup_cons] at hunits
    rw [List.countP_cons, List.countP_cons, ih hunits.2]
    simp only [List.map_cons, List.mem_cons]
    by_cases hx : x.1 = unit
    · subst hx
      simp [hunits.1, hunit, eq_comm]
    · simp only [hx, if_false, Ne.symm hx, false_or]
      omega

/-- A unit that has just begun has come to no fate. -/
theorem tally_concat (hunit : fate h unit = none) (g : Fate) :
    tally h (us ++ [(unit, id)]) (some g) = tally h us (some g) := by
  unfold tally
  rw [List.countP_append, List.countP_singleton, hunit]
  rfl

/-! ## sweeps and runs -/

/-- The units begun are those that put jobs back and those that run jobs. -/
theorem begun_perm (h : History) : (begun h).Perm ((swept h ++ sent h).map Prod.fst) := by
  have hbegun : begun h = (orders h).filterMap Order.begins? := by
    unfold begun orders
    rw [List.filterMap_flatMap]
  rw [hbegun]
  unfold swept sent
  induction orders h with
  | nil => exact .nil
  | cons o os ih =>
    cases o with
    | clean unit id => exact ih.cons unit
    | run unit id deadline =>
      refine (ih.cons unit).trans ?_
      rw [List.map_append, List.map_append]
      exact List.perm_middle.symm
    | _ => exact ih

theorem Orderly.units_once {n : Nat} (ho : Orderly h n) :
    ((swept h ++ sent h).map Prod.fst).Nodup := (begun_perm h).nodup_iff.mp ho.once

/-- The counters agree with the history, and the sweep is over before the first job is run. -/
structure Accounted (h : History) (w : Worker) : Prop where
  dispatched : w.stats.dispatched = (sent h).length
  counts : ∀ f, w.count f = tally h (sent h) (some f)
  recovered : w.stats.recovered = tally h (swept h) (some .completed)
  /-- While the sweep is on no job is run. -/
  sweeping : w.phase.isSweep = true → sent h = []
  /-- Behind the sweep none of its units is alive. -/
  sweepOver : w.phase.isSweep = false → ∀ x ∈ swept h, fate h x.1 ≠ none
  /-- No unit of the sweep is aborted. -/
  spared : ∀ x ∈ swept h, fate h x.1 ≠ some .aborted
  starting : w.phase = .starting → swept h = []

theorem Ready.fate? (h : Ready w e) : e.fate? = none := by
  cases h <;> rfl

/-- A move begins no unit, and none is gone. -/
theorem Move.begins_none {next : Phase} (hmove : Move c w e next os) :
    e.fate? = none ∧ os.filterMap Order.runs? = [] ∧ os.filterMap Order.cleans? = [] := by
  cases hmove with
  | goesOn ready onward => cases onward <;> exact ⟨ready.fate?, rfl, rfl⟩
  | _ => exact ⟨rfl, rfl, rfl⟩

/-- The sweep ends where it has not begun or where no unit is alive. -/
theorem Move.isSweep {next : Phase} (hmove : Move c w e next os) :
    next ≠ .starting ∧ (next.isSweep = w.phase.isSweep ∨
      next.isSweep = false ∧ (w.phase = .starting ∨ w.live = [])) := by
  cases hmove with
  | goesOn ready onward =>
    have hnext : next ≠ .starting ∧ next.isSweep = false := by
      cases onward <;> exact ⟨nofun, rfl⟩
    refine ⟨hnext.1, ?_⟩
    cases ready with
    | noneAbandoned phase => exact .inr ⟨hnext.2, .inl phase⟩
    | sweepOver _ idle => exact .inr ⟨hnext.2, .inr idle⟩
    | wakes phase => exact .inl (phase ▸ hnext.2)
    | quits phase => exact .inl (phase ▸ hnext.2)
  | sweeps phase => exact ⟨nofun, .inl (phase ▸ rfl)⟩
  | awaitsSweep phase => exact ⟨nofun, .inl (phase ▸ rfl)⟩
  | noneDue phase => exact ⟨nofun, .inl (phase ▸ rfl)⟩
  | dispatches phase => exact ⟨nofun, .inl (phase ▸ rfl)⟩
  | leavesOut phase => exact ⟨nofun, .inl (phase ▸ rfl)⟩
  | awaitsUnits phase => exact ⟨nofun, .inl (phase ▸ rfl)⟩
  | patienceOver phase => exact ⟨nofun, .inl (phase ▸ rfl)⟩
  | stops phase idle => exact ⟨nofun, .inr ⟨rfl, .inr idle⟩⟩

theorem Counted.fate_next (hcounted : Counted c h w) : fate h w.nextUnit = none :=
  fate_eq_none.mpr (mt (hcounted.orderly.known _) hcounted.orderly.not_begun)

theorem Counted.fate_live (hcounted : Counted c h w) (hlive : (unit, id) ∈ w.live) :
    fate h unit = none ∧ unit ∈ (swept h ++ sent h).map Prod.fst := by
  have halive : unit ∈ Worker.alive h := hcounted.alive ▸ List.mem_map_of_mem hlive
  obtain ⟨hbegun, hgone⟩ := List.mem_filter.mp halive
  exact ⟨fate_eq_none.mpr (of_decide_eq_true hgone), (begun_perm h).mem_iff.mp hbegun⟩

/-- Where no unit is alive each unit begun has come to its fate. -/
theorem Counted.fate_idle (hcounted : Counted c h w) (hidle : w.live = [])
    {x : Nat × JobId} (hx : x ∈ swept h ++ sent h) : fate h x.1 ≠ none := by
  intro hnone
  have hbegun : x.1 ∈ begun h := (begun_perm h).mem_iff.mpr (List.mem_map_of_mem hx)
  have halive : x.1 ∈ Worker.alive h :=
    List.mem_filter.mpr ⟨hbegun, decide_eq_true (fate_eq_none.mp hnone)⟩
  rw [hcounted.alive, hidle] at halive
  exact List.not_mem_nil halive

/-- What the end of a unit does to the counters. -/
structure Counts (w w' : Worker) (f : Fate) : Prop where
  phase : w'.phase = w.phase
  dispatched : w'.stats.dispatched = w.stats.dispatched
  recovered : w'.stats.recovered =
    w.stats.recovered + if f = .completed ∧ w.phase.isSweep = true then 1 else 0
  counts : ∀ g, w'.count g = w.count g + if g = f ∧ w.phase.isSweep = false then 1 else 0
  spared : w.phase.isSweep = true → f ≠ .aborted

theorem counts_ending (w : Worker) (unit : Nat) (id : JobId) (how : Ending) :
    Counts w (w.ending w.phase.isSweep unit id how).1 how.fate := by
  cases hsweep : w.phase.isSweep <;> cases how <;>
    refine ⟨rfl, rfl, by simp [ending, leave, Ending.fate, hsweep], fun g => ?_, fun _ => nofun⟩ <;>
    cases g <;> simp [ending, leave, count, Ending.fate, hsweep]

theorem counts_drop (w : Worker) (unit : Nat) (hphase : w.phase = .aborting) :
    Counts w { w.leave unit with aborted := w.aborted + 1 } .aborted := by
  refine ⟨rfl, rfl, rfl, fun g => ?_, fun hsweep => ?_⟩
  · cases g <;> simp [count, leave, hphase, Phase.isSweep]
  · rw [hphase] at hsweep
    cases hsweep

/-- A unit ends, or is dropped. -/
theorem Accounted.ends (hw : Accounted h w) (hcounted : Counted c h w)
    (he : e.fate? = some (unit, f)) (hlive : (unit, id) ∈ w.live) (hos : deeds os = [])
    (hcounts : Counts w w' f) : Accounted (h ++ [(e, os)]) w' := by
  obtain ⟨hunit, hmem⟩ := hcounted.fate_live hlive
  have honce := hcounted.orderly.units_once
  rw [List.map_append] at honce hmem
  have hsent : sent (h ++ [(e, os)]) = sent h := by
    rw [sent_append, sent_singleton, hos]
    exact List.append_nil _
  have hswept : swept (h ++ [(e, os)]) = swept h := by
    rw [swept_append, swept_singleton, hos]
    exact List.append_nil _
  have hfate (u : Nat) : fate (h ++ [(e, os)]) u = if u = unit then some f else fate h u :=
    fate_of_some he hunit u
  -- a unit that ends while the sweep is on belongs to it, and otherwise it runs a job
  have hkind : (unit ∈ (swept h).map Prod.fst ↔ w.phase.isSweep = true) ∧
      (unit ∈ (sent h).map Prod.fst ↔ w.phase.isSweep = false) := by
    cases hsweep : w.phase.isSweep with
    | true =>
      rw [hw.sweeping hsweep] at hmem ⊢
      simpa using hmem
    | false =>
      have hnot : unit ∉ (swept h).map Prod.fst := by
        rintro hin
        obtain ⟨x, hx, rfl⟩ := List.mem_map.mp hin
        exact hw.sweepOver hsweep x hx hunit
      simpa [hnot] using hmem
  refine ⟨?dispatched, fun g => ?counts, ?recovered, ?sweeping, ?sweepOver, ?spared, ?starting⟩
  case dispatched => rw [hcounts.dispatched, hsent, hw.dispatched]
  case counts =>
    rw [hsent, tally_of_some he hunit honce.of_append_right, hcounts.counts, hw.counts]
    simp only [hkind.2]
  case recovered =>
    rw [hswept, tally_of_some he hunit honce.of_append_left, hcounts.recovered, hw.recovered]
    simp only [hkind.1, eq_comm]
  case sweeping => rw [hcounts.phase, hsent]; exact hw.sweeping
  case sweepOver =>
    rw [hcounts.phase, hswept]
    intro hsweep x hx
    rw [hfate]
    split
    · exact nofun
    · exact hw.sweepOver hsweep x hx
  case spared =>
    rw [hswept]
    intro x hx
    rw [hfate]
    split
    · next heq =>
      have hsweep : w.phase.isSweep = true := hkind.1.mp (heq ▸ List.mem_map_of_mem hx)
      exact mt Option.some.inj (hcounts.spared hsweep)
    · exact hw.spared x hx
  case starting => rw [hcounts.phase, hswept]; exact hw.starting

/-- Nothing happens to the units. -/
theorem Accounted.idle (hw : Accounted h w) (hcounted : Counted c h w) (he : e.fate? = none)
    (hruns : (deeds os).filterMap Order.runs? = []) (hcleans : (deeds os).filterMap Order.cleans? = [])
    (hstats : w'.stats = w.stats) (hcount : w'.count = w.count)
    (hphase : w'.phase = w.phase ∨ w'.phase ≠ .starting ∧ (w'.phase.isSweep = w.phase.isSweep ∨
      w'.phase.isSweep = false ∧ (w.phase = .starting ∨ w.live = []))) :
    Accounted (h ++ [(e, os)]) w' := by
  have hsent : sent (h ++ [(e, os)]) = sent h := by
    rw [sent_append, sent_singleton, hruns, List.append_nil]
  have hswept : swept (h ++ [(e, os)]) = swept h := by
    rw [swept_append, swept_singleton, hcleans, List.append_nil]
  refine ⟨?dispatched, fun f => ?counts, ?recovered, ?sweeping, ?sweepOver, ?spared, ?starting⟩
  case dispatched => rw [hstats, hsent, hw.dispatched]
  case counts => rw [hcount, hsent, tally_of_none he, hw.counts]
  case recovered => rw [hstats, hswept, tally_of_none he, hw.recovered]
  case sweeping =>
    rw [hsent]
    intro hsweep
    rcases hphase with hsame | ⟨-, hsame | ⟨hover, -⟩⟩
    · exact hw.sweeping (hsame ▸ hsweep)
    · exact hw.sweeping (hsame ▸ hsweep)
    · rw [hover] at hsweep
      cases hsweep
  case sweepOver =>
    rw [hswept, fate_of_none he]
    intro hover x hx
    rcases hphase with hsame | ⟨-, hsame | ⟨-, hstarting | hidle⟩⟩
    · exact hw.sweepOver (hsame ▸ hover) x hx
    · exact hw.sweepOver (hsame ▸ hover) x hx
    · rw [hw.starting hstarting] at hx
      cases hx
    · exact hcounted.fate_idle hidle (List.mem_append_left _ hx)
  case spared => rw [hswept, fate_of_none he]; exact hw.spared
  case starting =>
    rw [hswept]
    intro hstarting
    rcases hphase with hsame | ⟨hnot, -⟩
    · exact hw.starting (hsame ▸ hstarting)
    · exact absurd hstarting hnot

/-- A unit of the sweep begins. -/
theorem Accounted.cleans (hw : Accounted h w) (hcounted : Counted c h w)
    (hdeeds : deeds os = [.clean w.nextUnit id]) (hsweep : w.phase.isSweep = true)
    (hstats : w'.stats = w.stats) (hcount : w'.count = w.count) (hphase : w'.phase.isSweep = true)
    (hstarted : w'.phase ≠ .starting) : Accounted (h ++ [(.dispatch, os)]) w' := by
  have hsent : sent (h ++ [(.dispatch, os)]) = sent h := by
    rw [sent_append, sent_singleton, hdeeds]
    exact List.append_nil _
  have hswept : swept (h ++ [(.dispatch, os)]) = swept h ++ [(w.nextUnit, id)] := by
    rw [swept_append, swept_singleton, hdeeds]
    rfl
  refine ⟨?dispatched, fun f => ?counts, ?recovered, fun _ => ?sweeping, fun hover => ?sweepOver,
    ?spared, fun hstarting => absurd hstarting hstarted⟩
  case dispatched => rw [hstats, hsent, hw.dispatched]
  case counts => rw [hcount, hsent, tally_of_none rfl, hw.counts]
  case recovered =>
    rw [hstats, hswept, tally_of_none rfl, tally_concat hcounted.fate_next, hw.recovered]
  case sweeping => rw [hsent, hw.sweeping hsweep]
  case sweepOver =>
    rw [hphase] at hover
    cases hover
  case spared =>
    rw [hswept, fate_of_none rfl]
    intro x hx
    rcases List.mem_append.mp hx with hx | hx
    · exact hw.spared x hx
    · rw [List.mem_singleton.mp hx, hcounted.fate_next]
      exact nofun

/-- A unit that runs a job begins. -/
theorem Accounted.sends (hw : Accounted h w) (hcounted : Counted c h w) {deadline : Nat}
    (hdeeds : deeds os = [.run w.nextUnit id deadline]) (hover : w.phase.isSweep = false)
    (hstats : w'.stats = { w.stats with dispatched := w.stats.dispatched + 1 })
    (hcount : w'.count = w.count) (hphase : w'.phase.isSweep = false) :
    Accounted (h ++ [(.dispatch, os)]) w' := by
  have hsent : sent (h ++ [(.dispatch, os)]) = sent h ++ [(w.nextUnit, id)] := by
    rw [sent_append, sent_singleton, hdeeds]
    rfl
  have hswept : swept (h ++ [(.dispatch, os)]) = swept h := by
    rw [swept_append, swept_singleton, hdeeds]
    exact List.append_nil _
  refine ⟨?dispatched, fun f => ?counts, ?recovered, fun hsweep => ?sweeping, fun _ => ?sweepOver,
    ?spared, fun hstarting => ?starting⟩
  case dispatched => rw [hstats, hsent, hw.dispatched, List.length_append, List.length_singleton]
  case counts =>
    rw [hcount, hsent, tally_of_none rfl, tally_concat hcounted.fate_next, hw.counts]
  case recovered => rw [hstats, hswept, tally_of_none rfl, hw.recovered]
  case sweeping =>
    rw [hphase] at hsweep
    cases hsweep
  case sweepOver => rw [hswept, fate_of_none rfl]; exact hw.sweepOver hover
  case spared => rw [hswept, fate_of_none rfl]; exact hw.spared
  case starting =>
    rw [hstarting] at hphase
    cases hphase

theorem Accounted.step (hw : Accounted h w) (hcounted : Counted c h w)
    (hstep : w.step c e = some (w', os)) : Accounted (h ++ [(e, os)]) w' := by
  cases turn_of_step hstep with
  | @cleans id rest _ phase free deeds =>
    have hsweep : w.phase.isSweep = true := phase ▸ rfl
    refine hw.cleans hcounted deeds hsweep rfl rfl ?_ ?_ <;> cases rest <;> first | rfl | exact nofun
  | @sends id rest ended _ phase free deeds =>
    have hover : w.phase.isSweep = false := phase ▸ rfl
    refine hw.sends hcounted deeds hover rfl rfl ?_
    cases rest <;> rfl
  | ends alive deeds => exact hw.ends hcounted rfl alive deeds (counts_ending ..)
  | drops phase alive => exact hw.ends hcounted rfl alive rfl (counts_drop _ _ phase)
  | cancels => exact hw.idle hcounted rfl rfl rfl rfl rfl (.inl rfl)
  | moves move deeds =>
    obtain ⟨he, hruns, hcleans⟩ := move.begins_none
    exact hw.idle hcounted he (deeds ▸ hruns) (deeds ▸ hcleans) rfl rfl (.inr move.isSweep)

theorem Run.accounted (hrun : Run c h w) : Accounted h w := by
  induction hrun with
  | start cancelled =>
    exact ⟨rfl, fun f => by cases f <;> rfl, rfl, fun _ => rfl, fun _ => nofun, fun _ => nofun,
      fun _ => rfl⟩
  | step before hstep ih => exact ih.step before.counted hstep

end Worker

end JobEngine
