import JobEngine.Proofs.Pool.Execution
import JobEngine.Proofs.Pool.Play

/-!
# Claims and resets compare and swap

A claim or a reset is a read under the row's lock, a test of the status and a write, in steps of
which anything may come between.  On the row they are one step all the same.

* `Deed.Swaps`              a commit that replaces the status of the record that its unit fetched;
* `Reachable.fetched`       what a unit has fetched it was answered, under the lock;
* `Reachable.claim_swaps`, `Reachable.reset_swaps`   claims and resets are such commits;
* `Reachable.claim_between`   between two claims of a job a commit files it as pending.
-/

namespace JobEngine

/-- The commit `d` replaces the status of a job, after the deeds `xs`: it files the very record that
its unit fetched under the row's lock, which was stored until then, and no other row. -/
structure Deed.Swaps (d : Deed) (xs : List Deed) (id : JobId) (old new : Status) : Prop where
  swap : ∃ s j stamp,
    d.heard = ⟨.store (.commit s), .ok ()⟩ ∧
    (∃ e ∈ xs, e.unit = d.unit ∧ e.heard = ⟨.store (.get s id true), .ok (some j)⟩) ∧
    d.before.rows.get? id = some j ∧ j.status = old ∧
    d.FilesOnly id { j with status := new, updated := stamp }

/-- The session of a unit and the record that it fetched in it. -/
def Stage.found : Stage → Option (SessionId × Job)
  | fetched s j | marked s j _ => some (s, j)
  | _ => none

theorem Moves.found {t : Task} {st st' : Stage} {h : Heard} {s : SessionId} {j : Job}
    (hmove : Moves t st h st') (hfound : st'.found = some (s, j)) :
    st.found = some (s, j) ∨
      ∃ id, t.job = some id ∧ h = ⟨.store (.get s id true), .ok (some j)⟩ := by
  cases hmove with
  | stays | marks => exact Or.inl hfound
  | fetches hjob =>
    obtain ⟨rfl, rfl⟩ := Prod.mk.inj (Option.some.inj hfound)
    exact Or.inr ⟨_, hjob, rfl⟩
  | _ => simp [Stage.found] at hfound

namespace Pool

variable {P : Pool} {ρ : Pool → Pool → Prop} {m : Memory} {now : Instant} {d : Deed} {u : Nat}
  {id : JobId} {xs ys : List Deed}

/-- What a unit has fetched it was answered, under the lock. -/
theorem Reachable.fetched {w : WorkUnit} {p : Program Engine Upshot} {s : SessionId} {j : Job}
    (h : Reachable ρ (fresh m now) P) (hm : m.Quiet) (hu : P.At u w p)
    (hfound : (P.stage u w.task).found = some (s, j)) :
    ∃ id, w.task.job = some id ∧
      ∃ e ∈ P.past, e.unit = u ∧ e.heard = ⟨.store (.get s id true), .ok (some j)⟩ := by
  have hall := h.stages (I := fun P u t st => ∀ s j, st.found = some (s, j) →
    ∃ id, t.job = some id ∧
      ∃ e ∈ P.past, e.unit = u ∧ e.heard = ⟨.store (.get s id true), .ok (some j)⟩)
    hm ?_ ?_ ?_ ?_ hu
  · exact hall s j hfound
  · intro P u t _ s j hidle
    simp [Stage.found] at hidle
  · intro P P' u t st _ _ hpast _ hold
    rw [hpast]
    exact hold
  · intro P P' d u t st _ hd _ hold s j hst
    obtain ⟨id, hjob, e, he, hfetch⟩ := hold s j hst
    exact ⟨id, hjob, e, by rw [hd.past_eq]; exact List.mem_append_left _ he, hfetch⟩
  · intro P P' d st _ hd hmove hold s j hst
    rw [hd.past_eq]
    rcases hmove.found hst with hst | ⟨id, hjob, hheard⟩
    · obtain ⟨id, hjob, e, he, hfetch⟩ := hold s j hst
      exact ⟨id, hjob, e, List.mem_append_left _ he, hfetch⟩
    · exact ⟨id, hjob, d, List.mem_append_right _ (List.mem_singleton_self d), rfl, hheard⟩

/-- A commit of what was marked is a swap. -/
theorem Reachable.swaps_of_mark {j : Job} {s : SessionId} {old new : Status} {stamp : Instant}
    {Q : Pool} (h : Reachable ρ (fresh m now) P) (hm : m.Quiet) (hd : P.Happens d Q)
    (hst : (P.stage d.unit d.task).found = some (s, j))
    (hh : d.heard = ⟨.store (.commit s), .ok ()⟩) (hrow : d.before.rows.get? id = some j)
    (hold : j.status = old) (hjob : d.task.job = some id)
    (hfiles : d.FilesOnly id { j with status := new, updated := stamp }) :
    d.Swaps P.past id old new := by
  refine ⟨s, j, stamp, hh, ?_, hrow, hold, hfiles⟩
  obtain ⟨w, p, hu, htask, _⟩ := hd.at_before
  rw [← htask] at hst hjob
  obtain ⟨id', hid, e, he, hunit, hfetch⟩ := h.fetched hm hu hst
  obtain rfl : id = id' := Option.some.inj (hjob.symm.trans hid)
  exact ⟨e, he, hunit, hfetch⟩

/-- A claim swaps pending for running. -/
theorem Reachable.claim_swaps (h : Reachable ρ (fresh m now) P) (hm : m.Quiet)
    (hsplit : P.past = xs ++ d :: ys) (hclaim : d.Claims id) :
    d.task.runs = some id ∧ d.Swaps xs id .pending .running := by
  obtain ⟨Q, Q', hQ, rfl, hd, _, _⟩ := h.deed rfl hsplit
  obtain ⟨s, j, stamp, c, hst, hh, hruns, hrow, hold, hfiles⟩ :=
    ((hQ.sound hm).filing hd).of_claims hclaim
  exact ⟨hruns, hQ.swaps_of_mark hm hd (by rw [hst]; rfl) hh hrow hold
    (Task.job_of_runs hruns) hfiles⟩

/-- A reset swaps running for pending. -/
theorem Reachable.reset_swaps (h : Reachable ρ (fresh m now) P) (hm : m.Quiet)
    (hsplit : P.past = xs ++ d :: ys) (hreset : d.Resets id) :
    d.task.job = some id ∧ d.Swaps xs id .running .pending := by
  obtain ⟨Q, Q', hQ, rfl, hd, _, _⟩ := h.deed rfl hsplit
  obtain ⟨s, j, stamp, c, hst, hh, hjob, hrow, hold, hfiles⟩ :=
    ((hQ.sound hm).filing hd).of_resets hreset
  exact ⟨hjob, hQ.swaps_of_mark hm hd (by rw [hst]; rfl) hh hrow hold hjob hfiles⟩

/-- Between two claims of a job a commit files it as pending. -/
theorem Reachable.claim_between {e : Deed} {zs : List Deed} (h : Reachable ρ (fresh m now) P)
    (hm : m.Quiet) (hsplit : P.past = xs ++ d :: (ys ++ e :: zs)) (hd : d.Claims id)
    (he : e.Claims id) : ∃ f ∈ ys, ∃ j, f.files id = some j ∧ j.status = .pending := by
  obtain ⟨_, s, j, stamp, _, _, _, _, hfiles⟩ := h.claim_swaps hm hsplit hd
  have hsplit' : P.past = (xs ++ d :: ys) ++ e :: zs := by rw [hsplit]; simp
  obtain ⟨_, s', j', stamp', _, _, hrow, hpend, _⟩ := h.claim_swaps hm hsplit' he
  obtain ⟨Q, hQ, hpast, hmem, _⟩ := h.filing hm hsplit'
  -- behind `d` the row is there and not pending, before `e` it is pending
  let φ : Table JobId Job → Prop := fun rows => ∀ j, rows.get? id = some j → j.status = .pending
  have hpast' : Q.past = (xs ++ [d]) ++ ys := by rw [hpast]; simp
  have hbefore : ¬ φ (rowsBehind m (xs ++ [d])) := by
    rw [rowsBehind_concat]
    intro hall
    have hrunning := hall _ hfiles.after_self
    simp at hrunning
  have hafter : φ Q.memory.rows := by
    intro j hj
    rw [hmem, hrow] at hj
    exact Option.some.inj hj ▸ hpend
  obtain ⟨as, f, bs, rfl, hnot, hnow⟩ := hQ.flip hpast' hbefore hafter
  refine ⟨f, by simp, ?_⟩
  have hsplit'' : Q.past = (xs ++ d :: as) ++ f :: bs := by rw [hpast]; simp
  obtain ⟨Q', _, _, _, hfil⟩ := hQ.filing hm hsplit''
  rcases hfil.row_cases id with ⟨_, hsame⟩ | ⟨r, j, hfile, _, hafter⟩ | ⟨_, habsent, _⟩
  · exact absurd (fun j hj => hnow j (hsame.trans hj)) hnot
  · exact ⟨j, hfile, hnow j hafter⟩
  · exact absurd (fun j hj => by rw [habsent] at hj; simp at hj) hnot

/-- **Claims and resets are atomic.**  In every order of the steps of any units, abandoned or not,
each committed claim takes the record that its unit fetched, stored as it was until the commit, from
pending to running, and each committed reset takes it from running to pending.  No action is invoked
but behind a committed claim of the unit, and between two claims of a job some commit files it as
pending. -/
theorem claims_and_resets_are_atomic (hm : m.Quiet) (h : Reachable anyhow (fresh m now) P) :
    (∀ xs d ys, P.past = xs ++ d :: ys →
      (∀ id, d.Claims id → d.task.runs = some id ∧ d.Swaps xs id .pending .running) ∧
      (∀ id, d.Resets id → d.task.job = some id ∧ d.Swaps xs id .running .pending) ∧
      ∀ i, d.Invokes i → ∃ e ∈ xs, e.unit = d.unit ∧ e.Claims i.job) ∧
    ∀ xs d ys e zs id, P.past = xs ++ d :: (ys ++ e :: zs) → d.Claims id → e.Claims id →
      ∃ f ∈ ys, ∃ j, f.files id = some j ∧ j.status = .pending := by
  refine ⟨fun xs d ys hsplit => ⟨fun id hd => ?_, fun id hd => ?_, fun i hi => ?_⟩,
    fun xs d ys e zs id hsplit hd he => ?_⟩
  · exact h.claim_swaps hm hsplit hd
  · exact h.reset_swaps hm hsplit hd
  · exact h.claim_of_invokes hm hsplit hi
  · exact h.claim_between hm hsplit hd he

/-- A claim, a reset and the claim behind it, each in steps that others come between. -/
theorem claim_reset_claim : ∃ P, Reachable anyhow (fresh loneStore .epoch) P ∧
    ∃ xs d ys e zs, P.past = xs ++ d :: (ys ++ e :: zs) ∧ d.Claims lone.id ∧ e.Claims lone.id ∧
      d.Swaps xs lone.id .pending .running ∧
      ∃ f ∈ ys, ∃ j, f.files lone.id = some j ∧ j.status = .pending := by
  let script : List Cue := [.start loneRun, .start loneClean, .start loneRun] ++ goes 0 5 ++
    goes 1 2 ++ goes 2 1 ++ goes 1 3 ++ goes 2 4
  obtain ⟨P, hP, hpast⟩ := reachable_of_play (P := fresh loneStore .epoch) (fun _ _ => true) script
    (fun P => P.past.map fun d => (d.task.runs.isSome, (d.files lone.id).map Job.status))
    (a := .replicate 4 (true, none) ++ (true, some .running) ::
      ([(false, none), (false, none), (true, none), (false, none), (false, none),
        (false, some .pending), (true, none), (true, none), (true, none)] ++
      [(true, some .running)]))
    (fun _ _ _ => trivial) (by decide +kernel)
  obtain ⟨xs, rest, hsplit, _, hrest⟩ := List.map_eq_append_iff.mp hpast
  obtain ⟨d, rest, rfl, hd, hrest⟩ := List.map_eq_cons_iff.mp hrest
  obtain ⟨ys, rest, rfl, _, hrest⟩ := List.map_eq_append_iff.mp hrest
  obtain ⟨e, zs, rfl, he, _⟩ := List.map_eq_cons_iff.mp hrest
  have hclaims {d : Deed} (h : (d.task.runs.isSome, (d.files lone.id).map Job.status)
      = (true, some .running)) : d.Claims lone.id := by
    obtain ⟨hruns, hfile⟩ := Prod.mk.inj h
    exact ⟨hruns, Option.map_eq_some_iff.mp hfile⟩
  have h := claims_and_resets_are_atomic loneStore_quiet hP
  exact ⟨P, hP, xs, d, ys, e, zs, hsplit, hclaims hd, hclaims he,
    ((h.1 _ _ _ hsplit).1 _ (hclaims hd)).2, h.2 _ _ _ _ _ _ hsplit (hclaims hd) (hclaims he)⟩

end Pool

end JobEngine
