import JobEngine.Proofs.Pool.History

/-!
# Listed and run

A poll lists the jobs that are due, and units run what was listed.  Nobody looks at the time again:
a job that was listed, run and put off by its retry in between is run once more at once.

* `Pool.Dispatch`          units only run what a finished poll has listed, under a steady clock;
* `Deed.Lists`             the answer to a poll that lists the job;
* `Reachable.listed_due`   what is listed is due then;
* `Reachable.listing`      whatever is run was listed before;
* `early_exactly_if_put_off`   who runs a job too early has claimed one that was put off meanwhile;
* `retry_before_its_time`      and this happens.
-/

namespace JobEngine

/-! ## what a listing shows -/

theorem Query.mem_select {q : Query} {jobs : List Job} {j : Job} (h : j ∈ (q.select jobs).items) :
    j ∈ jobs ∧ q.filter.admits j := by
  have hwindow {α : Type} (offset : Nat) (limit : Option Nat) {xs : List α} {x : α}
      (hx : x ∈ window offset limit xs) : x ∈ xs := by
    cases limit with
    | none => exact List.mem_of_mem_drop hx
    | some n => exact List.mem_of_mem_drop (List.mem_of_mem_take hx)
  have h := hwindow _ _ h
  have h : j ∈ (jobs.filter q.filter.admits).mergeSort Job.precedes := by
    unfold ordered at h
    cases ho : q.order <;> simp only [ho] at h
    · exact h
    · exact List.mem_reverse.mp h
  exact List.mem_filter.mp (List.mem_mergeSort.mp h)

/-- What the listing of a poll shows is pending and due. -/
theorem Query.due_admits {now : Instant} {limit : UInt64} {order : SortOrder} {j : Job}
    (h : (Query.due now limit order).filter.admits j) : j.status = .pending ∧ j.runAt ≤ now := by
  simp only [due, Filter.admits, Filter.holds, Bool.true_and, Bool.and_eq_true] at h
  exact ⟨List.mem_singleton.mp (List.contains_iff_mem.mp h.1), of_decide_eq_true h.2⟩

/-- The answer to a poll that lists the job. -/
def Deed.Lists (d : Deed) (id : JobId) : Prop :=
  ∃ now limit order page, d.task = .poll limit order ∧
    d.heard = ⟨.store (.list (.due now limit order)), .ok page⟩ ∧ id ∈ page.items.map Job.id

theorem Deed.Lists.files_none {l : Deed} {id : JobId} (h : l.Lists id) (k : JobId) :
    l.files k = none := by
  obtain ⟨_, _, _, _, _, hh, _⟩ := h
  cases hfile : l.files k with
  | none => rfl
  | some j =>
    obtain ⟨s, hc⟩ := Deed.heard_of_files hfile
    obtain ⟨hcall, _⟩ := Sigma.mk.inj (hh.symm.trans hc)
    simp at hcall

/-- The jobs that a finished poll has listed. -/
def WorkUnit.listed : WorkUnit → List JobId
  | ⟨.poll _ _, some (.done (.listed (.ok ids)))⟩ => ids
  | _ => []

section
variable {t : Task} {st st' : Stage} {h : Heard} {time : Instant}

theorem Moves.timed (hmove : Moves t st h (.timed time)) :
    st = .timed time ∨ h = ⟨.clock, time⟩ := by
  cases hmove with
  | stays => exact Or.inl rfl
  | isTold => exact Or.inr rfl

theorem Moves.listed {page : Page} (hmove : Moves t st h (.listed time page)) :
    st = .listed time page ∨ ∃ limit order, t = .poll limit order ∧
      h = ⟨.store (.list (.due time limit order)), .ok page⟩ := by
  cases hmove with
  | stays => exact Or.inl rfl
  | lists ht => exact Or.inr ⟨_, _, ht, rfl⟩

/-- A poll asks for what is due at the time that it was told. -/
theorem May.at_due {limit limit' : UInt64} {order order' : SortOrder}
    (h : May (.poll limit order) st (.store (.list (.due time limit' order')))) :
    st = .timed time := by
  generalize hq : Query.due time limit' order' = q at h
  cases h with
  | due => exact congrArg Stage.timed (Option.some.inj (congrArg (·.filter.dueBy) hq)).symm

end

namespace Pool

/-- Some finished poll has listed the job. -/
def Listed (P : Pool) (id : JobId) : Prop := ∃ w ∈ P.units, id ∈ w.listed

/-- The clock does not go back, no job is put back while it is executed, and a unit is only started
for a job that was listed. -/
structure Dispatch (P P' : Pool) : Prop where
  steady : Steady P P'
  orderly : Orderly P P'
  listed {t : Task} {id : JobId} : P' = P.start t → t.runs = some id → P.Listed id

variable {P P' Q : Pool} {d l : Deed} {u : Nat} {w : WorkUnit} {p : Program Engine Upshot}
  {id : JobId} {ρ : Pool → Pool → Prop} {m : Memory} {now : Instant} {r : Job}

/-! ## time -/

theorem Reachable.time_le (h : Reachable ρ (fresh m now) P) (hρ : ∀ P P', ρ P P' → Steady P P')
    (hd : d ∈ P.past) : d.time ≤ P.now := by
  refine h.invariant (I := fun P => ∀ d ∈ P.past, d.time ≤ P.now)
    (fun d hd => absurd hd List.not_mem_nil) (fun P P' _ hall hs hr d hd => ?_) d hd
  rcases hs.cases_past with ⟨e, he⟩ | ⟨hpast, _⟩
  · rw [he.now_eq.1]
    rw [he.past_eq] at hd
    rcases List.mem_append.mp hd with hd | hd
    · exact hall d hd
    · rw [List.mem_singleton.mp hd, he.now_eq.2]
      exact Instant.le_refl _
  · exact Instant.le_trans (hall d (hpast ▸ hd)) (hρ P P' hr)

theorem Reachable.timed_le {time : Instant} (h : Reachable ρ (fresh m now) P) (hm : m.Quiet)
    (hρ : ∀ P P', ρ P P' → Steady P P') (hu : P.At u w p)
    (hst : P.stage u w.task = .timed time) : time ≤ P.now := by
  have hall := h.stages (I := fun P _ _ st => ∀ time, st = .timed time → time ≤ P.now)
    hm ?_ ?_ ?_ ?_ hu
  · exact hall time hst
  · intro P u t _ time h
    simp at h
  · intro P P' u t st hr _ _ _ hold time h
    exact Instant.le_trans (hold time h) (hρ P P' hr)
  · intro P P' d u t st _ hd _ hold time h
    rw [hd.now_eq.1]
    exact hold time h
  · rintro P P' d _ _ hd hmove hold time rfl
    rw [hd.now_eq.1]
    rcases hmove.timed with h | h
    · exact hold time h
    · obtain @⟨u, w, c, k, a, m, hw, hk, ha⟩ := hd
      obtain ⟨rfl, e⟩ := Sigma.mk.inj h
      obtain rfl := eq_of_heq e
      cases ha with
      | clock => exact Instant.le_refl _

/-! ## listings -/

/-- What is listed is due then. -/
theorem Reachable.listed_due (h : Reachable ρ (fresh m now) P) (hm : m.Quiet)
    (hρ : ∀ P P', ρ P P' → Steady P P') (hd : P.Happens l P') (hl : l.Lists id) :
    ∃ r, P.memory.rows.get? id = some r ∧ r.runAt ≤ P.now := by
  obtain ⟨time, limit, order, page, htask, hh, hid⟩ := hl
  obtain ⟨w, p, hu, htask', hq⟩ := hd.at_before
  have hP := h.sound hm
  have htime : time ≤ P.now := by
    have hmay := hP.may hu hq
    rw [htask', htask, hh] at hmay
    exact h.timed_le hm hρ hu (htask' ▸ htask ▸ hmay.at_due)
  obtain ⟨j, hj, rfl⟩ := List.mem_map.mp hid
  rw [hd.list_eq hh, ← hd.memory_eq.2] at hj
  obtain ⟨hmem, hadmits⟩ := Query.mem_select hj
  obtain ⟨⟨k, j'⟩, hentry, rfl⟩ := List.mem_map.mp hmem
  have hrow : P.memory.rows.get? k = some j' :=
    Table.get?_of_mem hP.coherent.rows_distinct hentry
  obtain rfl := hP.coherent.filed hrow
  exact ⟨j', hrow, Instant.le_trans (Query.due_admits hadmits).2 htime⟩

theorem Reachable.lists_of_listed (h : Reachable ρ (fresh m now) P) (hm : m.Quiet)
    (hid : P.Listed id) : ∃ l ∈ P.past, l.Lists id := by
  obtain ⟨w, hw, hid⟩ := hid
  obtain ⟨u, hw⟩ := List.mem_iff_getElem?.mp hw
  unfold WorkUnit.listed at hid
  split at hid
  · next limit order ids _ =>
    have hu : P.At u ⟨.poll limit order, _⟩ _ := ⟨hw, rfl⟩
    obtain ⟨time, page, hst, rfl⟩ := (h.sound hm).keeps hu limit order ids rfl rfl
    have hall := h.stages (I := fun P _ t st => ∀ time page, st = .listed time page →
      id ∈ page.items.map Job.id → ∃ l ∈ P.past, l.Lists id) hm ?_ ?_ ?_ ?_ hu
    · exact hall time page hst hid
    · intro P u t _ time page h
      simp at h
    · intro P P' u t st _ _ hpast _ hold
      rw [hpast]
      exact hold
    · intro P P' d u t st _ hd _ hold time page h hid
      obtain ⟨l, hl, hlists⟩ := hold time page h hid
      exact ⟨l, by rw [hd.past_eq]; exact List.mem_append_left _ hl, hlists⟩
    · rintro P P' d _ _ hd hmove hold time page rfl hid
      rw [hd.past_eq]
      rcases hmove.listed with h | ⟨limit, order, htask, hh⟩
      · obtain ⟨l, hl, hlists⟩ := hold time page h hid
        exact ⟨l, List.mem_append_left _ hl, hlists⟩
      · exact ⟨d, by simp, time, limit, order, page, htask, hh, hid⟩
  · exact absurd hid List.not_mem_nil

theorem Dispatch.unit_cases (hρ : Dispatch P P') (hs : P.Step P') (hw : P'.units[u]? = some w)
    (hruns : w.task.runs = some id) :
    (∃ w₀, P.units[u]? = some w₀ ∧ w₀.task = w.task) ∨ u = P.units.length ∧ P.Listed id := by
  have hset {v : Nat} {w₀ : WorkUnit} {rest : Option (Program Engine Upshot)}
      (hv : P.units[v]? = some w₀) (hw : (P.units.set v { w₀ with rest })[u]? = some w) :
      ∃ w₀, P.units[u]? = some w₀ ∧ w₀.task = w.task := by
    rcases at_set (List.getElem?_eq_some_iff.mp hv).1 hw with ⟨rfl, rfl⟩ | ⟨_, hw⟩
    · exact ⟨w₀, hv, rfl⟩
    · exact ⟨w, hw, rfl⟩
  cases hs with
  | start t =>
    rcases unit_start hw with hw | ⟨rfl, rfl⟩
    · exact Or.inl ⟨w, hw, rfl⟩
    · exact Or.inr ⟨rfl, hρ.listed rfl hruns⟩
  | answer h =>
    cases h with
    | mk hv _ _ => exact Or.inl (hset hv hw)
  | drop hv _ => exact Or.inl (hset hv hw)
  | clock t => exact Or.inl ⟨w, hw, rfl⟩

/-- The job of every unit that runs one was listed before the unit was told anything. -/
theorem Reachable.listing (h : Reachable Dispatch (fresh m now) P) (hm : m.Quiet)
    (hw : P.units[u]? = some w) (hruns : w.task.runs = some id) :
    ∃ as l bs, P.past = as ++ l :: bs ∧ l.Lists id ∧ ∀ d ∈ as ++ [l], d.unit ≠ u := by
  refine h.invariant (I := fun P => ∀ u w id, P.units[u]? = some w → w.task.runs = some id →
    ∃ as l bs, P.past = as ++ l :: bs ∧ l.Lists id ∧ ∀ d ∈ as ++ [l], d.unit ≠ u)
    ?_ ?_ u w id hw hruns
  · intro u w id hw
    exact absurd (List.getElem?_eq_some_iff.mp hw).1 (Nat.not_lt_zero _)
  · intro P P' hP hall hs hρ u w id hw hruns
    have hback : ∃ as l bs, P.past = as ++ l :: bs ∧ l.Lists id ∧ ∀ d ∈ as ++ [l], d.unit ≠ u := by
      rcases hρ.unit_cases hs hw hruns with ⟨w₀, hw₀, htask⟩ | ⟨rfl, hlisted⟩
      · exact hall u w₀ id hw₀ (htask ▸ hruns)
      · obtain ⟨l, hl, hlists⟩ := hP.lists_of_listed hm hlisted
        obtain ⟨as, bs, hpast⟩ := List.append_of_mem hl
        refine ⟨as, l, bs, hpast, hlists, fun d hd => ?_⟩
        refine unit_ne_of_told ((hP.sound hm).untold (Nat.le_refl _)) ?_
        rw [hpast]
        rcases List.mem_append.mp hd with hd | hd
        · exact List.mem_append_left _ hd
        · exact List.mem_append_right _ (List.mem_cons.mpr (Or.inl (List.mem_singleton.mp hd)))
    obtain ⟨as, l, bs, hpast, hrest⟩ := hback
    rcases hs.cases_past with ⟨e, he⟩ | ⟨hsame, _⟩
    · exact ⟨as, l, bs ++ [e], by rw [he.past_eq, hpast]; simp, hrest⟩
    · exact ⟨as, l, bs, hsame.trans hpast, hrest⟩

/-! ## put off -/

/-- A job that was due by `t` is still due by `t` unless it was filed as due later. -/
theorem Reachable.runAt_le_iff {t : Instant} {as bs : List Deed} {j : Job}
    (h : Reachable Orderly (fresh m now) P) (hm : m.Quiet) (hsplit : P.past = as ++ l :: bs)
    (hr : l.after.rows.get? id = some r) (hdue : r.runAt ≤ t)
    (hj : P.memory.rows.get? id = some j) :
    j.runAt ≤ t ↔ ∀ f ∈ bs, ∀ j', f.files id = some j' → j'.runAt ≤ t := by
  constructor
  · intro hle f hf j' hfile
    obtain ⟨cs, ds, rfl⟩ := List.append_of_mem hf
    have hsplit : P.past = (as ++ l :: cs) ++ f :: ds := by rw [hsplit]; simp
    obtain ⟨Q, Q', hQ, _, hd, hρ, hP⟩ := h.deed rfl hsplit
    have hrow : Q'.memory.rows.get? id = some j' :=
      hd.memory_eq.1 ▸ ((hQ.sound hm).filing hd).after_of_files hfile
    obtain ⟨j₁, hj₁, hmono⟩ :=
      Reachable.runAt_onward (.step hQ (.answer hd) hρ) hm hP hrow
    obtain rfl := Option.some.inj (hj.symm.trans hj₁)
    exact Instant.le_trans hmono hle
  · intro hall
    refine Decidable.of_not_not fun hlate => ?_
    -- behind `l` the row is due by `t`, and now there is none that is
    have hpast : P.past = (as ++ [l]) ++ bs := by rw [hsplit]; simp
    obtain ⟨cs, f, ds, rfl, hbefore, hafter⟩ := h.flip
      (φ := fun rows => ∀ j, rows.get? id = some j → ¬ j.runAt ≤ t) hpast
      (by rw [rowsBehind_concat]; exact fun hno => hno r hr hdue)
      (fun j' hj' => Option.some.inj (hj.symm.trans hj') ▸ hlate)
    have hsplit : P.past = (as ++ l :: cs) ++ f :: ds := by rw [hpast]; simp
    obtain ⟨_, _, _, _, hfil⟩ := h.filing hm hsplit
    rcases hfil.row_cases id with ⟨_, hsame⟩ | ⟨_, j', hfile, _, hrow⟩ | ⟨_, habsent, _⟩
    · exact hbefore (hsame ▸ hafter)
    · exact hafter j' hrow (hall f (by simp) j' hfile)
    · exact hbefore fun j hj => by rw [habsent] at hj; simp at hj

/-- **A job runs too early exactly if it was put off since it was listed.**  Where units only run
what polls have listed, under a clock that does not go back, each run of an action is behind a claim
of its unit, and that behind a listing of the job.  The claimed record is due when the run starts
unless a commit between the two has filed the job as due later than that; and then it is not. -/
theorem early_exactly_if_put_off (hm : m.Quiet) (h : Reachable Dispatch (fresh m now) P) :
    ∀ xs d ys i, P.past = xs ++ d :: ys → d.Invokes i →
      (∃ as l bs e cs j, xs = as ++ l :: (bs ++ e :: cs) ∧ l.Lists i.job ∧ e.unit = d.unit ∧
        e.Claims i.job ∧ e.files i.job = some j) ∧
      ∀ as l bs e cs j, xs = as ++ l :: (bs ++ e :: cs) → l.Lists i.job → e.unit = d.unit →
        e.Claims i.job → e.files i.job = some j →
        (j.runAt ≤ d.time ↔ ∀ f ∈ bs, ∀ j', f.files i.job = some j' → j'.runAt ≤ d.time) := by
  intro xs d ys i hsplit hi
  have hsteady : ∀ P P', Dispatch P P' → Steady P P' := fun _ _ h => h.steady
  have horderly : Reachable Orderly (fresh m now) P := h.mono fun _ _ h => h.orderly
  obtain ⟨Q, Q', hQ, hxs, hd, hρ, _⟩ := h.deed rfl hsplit
  refine ⟨?_, fun as l bs e cs j hxs' hl heu hclaim hfile => ?_⟩
  · obtain ⟨e, he, heu, hclaim⟩ := h.claim_of_invokes hm hsplit hi
    obtain ⟨v, _, hruns, _⟩ := Reachable.invokes (.step hQ (.answer hd) hρ) hm hd hi
    obtain ⟨w, p, hu, htask, _⟩ := hd.at_before
    obtain ⟨as, l, bs, hpast, hl, hnot⟩ := hQ.listing hm hu.unit (htask ▸ hruns)
    rw [hxs] at hpast
    have hin : e ∈ bs := by
      rw [hpast, List.append_cons] at he
      rcases List.mem_append.mp he with he | he
      · exact absurd heu (hnot e he)
      · exact he
    obtain ⟨bs, cs, rfl⟩ := List.append_of_mem hin
    obtain ⟨_, j, hfile, _⟩ := id hclaim
    exact ⟨as, l, bs, e, cs, j, hpast, hl, heu, hclaim, hfile⟩
  · have hlsplit : P.past = as ++ l :: (bs ++ e :: (cs ++ d :: ys)) := by
      rw [hsplit, hxs']; simp
    have hesplit : P.past = (as ++ l :: bs) ++ e :: (cs ++ d :: ys) := by rw [hlsplit]; simp
    -- the listing shows a row that is due then, and so when the run starts
    obtain ⟨L, L', hL, _, hlist, _, _⟩ := h.deed rfl hlsplit
    obtain ⟨r, hr, hdue⟩ := hL.listed_due hm hsteady hlist hl
    have hdue : r.runAt ≤ d.time := by
      rw [← hlist.now_eq.2] at hdue
      rw [hd.now_eq.2]
      exact Instant.le_trans hdue (hQ.time_le hsteady (by rw [hxs, hxs']; simp))
    have hr' : l.after.rows.get? i.job = some r :=
      ((hL.sound hm).filing hlist).after_of_before (hl.files_none _) (hlist.memory_eq.2 ▸ hr)
    -- the claim leaves the time alone
    obtain ⟨E, E', hE, hpast, hclaimed, _, _⟩ := horderly.deed rfl hesplit
    obtain ⟨_, j₀, stamp, _, _, _, _, hrow, _, hfiles⟩ :=
      ((hE.sound hm).filing hclaimed).of_claims hclaim
    obtain ⟨_, rfl⟩ := hfiles.eq_of_files hfile
    show j₀.runAt ≤ d.time ↔ _
    exact hE.runAt_le_iff hm hpast hr' hdue (hclaimed.memory_eq.2 ▸ hrow)

/-! ## two polls -/

/-- A test of the rule, for scripts in which no job is put back. -/
def dispatches (P P' : Pool) : Bool :=
  decide (P.now ≤ P'.now) && P'.units.all (fun w => w.task.cleans = false) &&
    (P'.units.drop P.units.length).all fun w =>
      match w.task.runs with
      | some id => P.units.any fun w => w.listed.contains id
      | none => true

theorem dispatch_of_dispatches (h : dispatches P P' = true) :
    Dispatch P P' ∧ WithoutResets P P' := by
  obtain ⟨h, hlisted⟩ := Bool.and_eq_true_iff.mp h
  obtain ⟨hsteady, hno⟩ := Bool.and_eq_true_iff.mp h
  have hno : WithoutResets P P' :=
    fun w hw => of_decide_eq_true (List.all_eq_true.mp hno w hw)
  refine ⟨⟨of_decide_eq_true (p := P.now ≤ P'.now) hsteady, orderly_of_withoutResets hno, ?_⟩, hno⟩
  rintro t id rfl hruns
  have hnew : (P.start t).units.drop P.units.length = [.start t] := List.drop_left
  rw [hnew] at hlisted
  have hany := List.all_eq_true.mp hlisted _ List.mem_cons_self
  rw [show (WorkUnit.start t).task.runs = some id from hruns] at hany
  obtain ⟨w, hw, hid⟩ := List.any_eq_true.mp hany
  exact ⟨w, hw, List.contains_iff_mem.mp hid⟩

def lonePoll : Task := .poll 10 .ascending

/-- The first run of a job that was listed. -/
theorem first_run_on_time : ∃ P, Reachable Dispatch (fresh loneStore .epoch) P ∧
    ∃ xs d i, P.past = xs ++ [d] ∧ d.Invokes i ∧ ∃ e ∈ xs, e.unit = d.unit ∧ e.Claims i.job ∧
      ∃ j, e.files i.job = some j ∧ j.runAt ≤ d.time := by
  let script : List Cue := [.start lonePoll] ++ goes 0 2 ++ [.start loneRun] ++ goes 1 7
  obtain ⟨P, hP, hall⟩ := reachable_of_play (P := fresh loneStore .epoch) (ρ := Dispatch)
    dispatches script
    (fun P => (P.lastRun, P.past.all fun f => (f.files lone.id).all fun j => j.runAt ≤ .epoch))
    (a := (some (lone.id, 1, .epoch), true)) (fun _ _ h => (dispatch_of_dispatches h).1)
    (by decide +kernel)
  obtain ⟨hlast, hdue⟩ := Prod.mk.inj hall
  obtain ⟨xs, d, i, hsplit, hi, hjob, _, htime⟩ := lastRun_eq_some hlast
  obtain ⟨⟨as, l, bs, e, cs, j, hxs, hl, heu, hclaim, hfile⟩, hiff⟩ :=
    early_exactly_if_put_off loneStore_quiet hP xs d [] i hsplit hi
  refine ⟨P, hP, xs, d, i, hsplit, hi, e, by rw [hxs]; simp, heu, hclaim, j, hfile, ?_⟩
  refine (hiff as l bs e cs j hxs hl heu hclaim hfile).mpr fun f hf j' hj' => ?_
  have hdue := List.all_eq_true.mp hdue f (by rw [hsplit, hxs]; simp [hf])
  rw [← hjob, hj'] at hdue
  rw [htime]
  exact of_decide_eq_true hdue

/-- Two polls list the job; it is run and put off, and run again at once. -/
theorem retry_before_its_time : ∃ P, Reachable Dispatch (fresh loneStore .epoch) P ∧
    (∀ w ∈ P.units, w.task.cleans = false) ∧
    ∃ xs d i, P.past = xs ++ [d] ∧ d.Invokes i ∧ ∃ e ∈ xs, e.unit = d.unit ∧ e.Claims i.job ∧
      ∃ j, e.files i.job = some j ∧ d.time < j.runAt := by
  let script : List Cue := [.start lonePoll, .start lonePoll] ++ goes 0 2 ++ goes 1 2 ++
    [.start loneRun, .start loneRun] ++ goes 2 14 ++ goes 3 7
  obtain ⟨P, hP, hall⟩ := reachable_of_play (P := fresh loneStore .epoch) (ρ := Dispatch)
    dispatches script
    (fun P => (P.lastRun, P.units.all fun w => w.task.cleans = false,
      P.past.all fun f => f.unit ≠ 3 || (f.files lone.id).all fun j => Instant.epoch < j.runAt))
    (a := (some (lone.id, 3, .epoch), true, true)) (fun _ _ h => (dispatch_of_dispatches h).1)
    (by decide +kernel)
  obtain ⟨hlast, hall⟩ := Prod.mk.inj hall
  obtain ⟨hno, hlate⟩ := Prod.mk.inj hall
  obtain ⟨xs, d, i, hsplit, hi, hjob, hunit, htime⟩ := lastRun_eq_some hlast
  obtain ⟨e, he, heu, hclaim⟩ := hP.claim_of_invokes loneStore_quiet hsplit hi
  obtain ⟨_, j, hfile, _⟩ := id hclaim
  refine ⟨P, hP, fun w hw => of_decide_eq_true (List.all_eq_true.mp hno w hw), xs, d, i, hsplit,
    hi, e, he, heu, hclaim, j, hfile, ?_⟩
  have hlate := List.all_eq_true.mp hlate e (by rw [hsplit]; simp [he])
  rw [heu, hunit, ← hjob, hfile] at hlate
  rw [htime]
  exact of_decide_eq_true hlate

end Pool

end JobEngine
