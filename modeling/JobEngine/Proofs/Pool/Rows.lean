import JobEngine.Proofs.Pool.Sound

/-!
# Rows and their history

* `Filing`                what an answer to a unit does to the rows, by the stage of the unit;
* `Sound.filing`          every answer does one of these;
* `Filing.row_cases`      a row stays, is filed by a commit or is new;
* `rowsBehind`            the rows behind some deeds;
* `Reachable.flip`        what becomes true of the rows becomes true at some deed.
-/

namespace JobEngine

open Memory

/-- The answer files `j` as the row of `id`, and leaves all other rows alone. -/
structure Deed.FilesOnly (d : Deed) (id : JobId) (j : Job) : Prop where
  files (k : JobId) : d.files k = if id = k then some j else none
  after (k : JobId) : d.after.rows.get? k = if id = k then some j else d.before.rows.get? k

namespace Deed.FilesOnly

variable {d : Deed} {id : JobId} {j : Job} (h : d.FilesOnly id j)
include h

theorem files_self : d.files id = some j := (h.files id).trans (if_pos rfl)

theorem after_self : d.after.rows.get? id = some j := (h.after id).trans (if_pos rfl)

end Deed.FilesOnly

theorem Deed.FilesOnly.eq_of_files {d : Deed} {k id : JobId} {j j' : Job} (h : d.FilesOnly k j)
    (hfile : d.files id = some j') : k = id ∧ j = j' := by
  rw [h.files] at hfile
  split at hfile
  · next e => exact ⟨e, Option.some.inj hfile⟩
  · simp at hfile

theorem Deed.heard_of_files {d : Deed} {id : JobId} {j : Job} (h : d.files id = some j) :
    ∃ s, d.heard = ⟨.store (.commit s), .ok ()⟩ := by
  unfold Deed.files at h
  split at h
  · next s e => exact ⟨s, e⟩
  · simp at h

namespace Pool

/-- What an answer does to the rows. -/
inductive Filing (P : Pool) (d : Deed) : Prop
  | nothing : d.after.rows = d.before.rows → (∀ k, d.files k = none) → Filing P d
  /-- A claim or a reset is committed. -/
  | mark {s : SessionId} {j : Job} {c : Changes} :
    P.stage d.unit d.task = .marked s j c → d.heard = ⟨.store (.commit s), .ok ()⟩ →
    d.task.job = some j.id → d.task.Marks j c → d.before.rows.get? j.id = some j →
    d.FilesOnly j.id (c.overwrite j) → Filing P d
  /-- The end of an attempt is committed. -/
  | outcome {s : SessionId} {v r : Job} {how : Except ActionError Json} {c : Changes} :
    P.stage d.unit d.task = .recorded v how s c → d.heard = ⟨.store (.commit s), .ok ()⟩ →
    d.task.runs = some v.id → Settles v how c → d.before.rows.get? v.id = some r →
    ¬ c.Oversteps r → d.FilesOnly v.id (c.overwrite r) → Filing P d
  | insert {c : Controller} {request : NewJob} {id : JobId} {now : Instant} {j : Job} :
    d.task = .create c request → request.toJob id now = .ok j →
    d.before.rows.get? j.id = none →
    (∀ k, d.after.rows.get? k = if j.id = k then some j else d.before.rows.get? k) →
    (∀ k, d.files k = none) → Filing P d

variable {P P' : Pool} {d : Deed} {ρ : Pool → Pool → Prop} {m : Memory} {now : Instant}

theorem Happens.store_cases {c : StoreCall} {a : c.Answer} (h : P.Happens d P')
    (hh : d.heard = ⟨.store c, a⟩) :
    d.before.perform c = (some a, d.after) ∨ ∃ e, a = c.refuse e := by
  obtain @⟨u, w, c', k, a', m, hw, hk, ha⟩ := h
  obtain ⟨rfl, e⟩ := Sigma.mk.inj hh
  obtain rfl := eq_of_heq e
  cases ha with
  | performed h => exact Or.inl h
  | refused => exact Or.inr ⟨_, rfl⟩

theorem Happens.commit_eq {s : SessionId} (h : P.Happens d P')
    (hh : d.heard = ⟨.store (.commit s), .ok ()⟩) : d.after = d.before.commit s := by
  rcases h.store_cases hh with h | ⟨e, h⟩
  · exact (Prod.mk.inj h).2.symm
  · simp [StoreCall.refuse] at h

theorem Happens.read_eq {id : JobId} {v : Job} (h : P.Happens d P')
    (hh : d.heard = ⟨.store (.read id), .ok (some v)⟩) : d.before.rows.get? id = some v := by
  rcases h.store_cases hh with h | ⟨e, h⟩
  · exact Except.ok.inj (Option.some.inj (Prod.mk.inj h).1)
  · simp [StoreCall.refuse] at h

theorem Happens.list_eq {q : Query} {page : Page} (h : P.Happens d P')
    (hh : d.heard = ⟨.store (.list q), .ok page⟩) : page = q.select d.before.rows.values := by
  rcases h.store_cases hh with h | ⟨e, h⟩
  · exact (Except.ok.inj (Option.some.inj (Prod.mk.inj h).1)).symm
  · simp [StoreCall.refuse] at h

/-- What a commit files is what the session had staged. -/
theorem Happens.filesOnly {s : SessionId} {held : List JobId} {id : JobId} {j : Job}
    (h : P.Happens d P') (hm : d.before.Coherent) (hh : d.heard = ⟨.store (.commit s), .ok ()⟩)
    (hs : d.before.sessions.get? s = some ⟨[(id, j)], held⟩) : d.FilesOnly id j where
  files k := by
    unfold Deed.files
    rw [hh]
    show (d.before.session s).staged.get? k = _
    rw [session_of_get? hs, Table.get?_cons]
    rfl
  after k := by
    rw [h.commit_eq hh, get?_commit hm hs, Table.get?_cons]
    split <;> rfl

theorem Happens.filing_nothing {s : SessionId} {held : List JobId} (h : P.Happens d P')
    (hh : d.heard = ⟨.store (.commit s), .ok ()⟩)
    (hs : d.before.sessions.get? s = some ⟨[], held⟩) : P.Filing d := by
  refine .nothing ?_ fun k => ?_
  · rw [h.commit_eq hh]
    show (d.before.session s).staged.setAll d.before.rows = d.before.rows
    rw [session_of_get? hs]
    rfl
  · unfold Deed.files
    rw [hh]
    show (d.before.session s).staged.get? k = none
    rw [session_of_get? hs]
    rfl

theorem Sound.fits_deed (hP : P.Sound) (h : P.Happens d P') :
    d.before.Coherent ∧ d.task.Fits d.before (P.stage d.unit d.task) := by
  obtain @⟨u, w, c, k, a, m, hw, hk, ha⟩ := h
  exact ⟨hP.coherent, hP.fits ⟨hw, hk⟩⟩

theorem Sound.commit_marked {s : SessionId} {j : Job} {c : Changes} (hP : P.Sound)
    (h : P.Happens d P') (hst : P.stage d.unit d.task = .marked s j c)
    (hh : d.heard = ⟨.store (.commit s), .ok ()⟩) :
    d.task.job = some j.id ∧ d.task.Marks j c ∧ d.before.rows.get? j.id = some j ∧
      d.FilesOnly j.id (c.overwrite j) := by
  obtain ⟨hm, hfits⟩ := hP.fits_deed h
  rw [hst] at hfits
  obtain ⟨hjob, hmark, held, hs, _, hrow⟩ := hfits
  exact ⟨hjob, hmark, hrow, h.filesOnly hm hh hs⟩

theorem Sound.commit_recorded {s : SessionId} {v : Job} {how : Except ActionError Json}
    {c : Changes} (hP : P.Sound) (h : P.Happens d P')
    (hst : P.stage d.unit d.task = .recorded v how s c)
    (hh : d.heard = ⟨.store (.commit s), .ok ()⟩) :
    d.task.runs = some v.id ∧ Settles v how c ∧ ∃ r, d.before.rows.get? v.id = some r ∧
      ¬ c.Oversteps r ∧ d.FilesOnly v.id (c.overwrite r) := by
  obtain ⟨hm, hfits⟩ := hP.fits_deed h
  rw [hst] at hfits
  obtain ⟨hjob, hset, r, held, hs, _, hrow, hover⟩ := hfits
  exact ⟨hjob, hset, r, hrow, hover, h.filesOnly hm hh hs⟩

/-- Only a commit and a new row change the rows. -/
theorem rows_of_answer {m m' : Memory} {c : EngineCall} {a : c.Answer}
    (ha : Answers m now c a m') (hcommit : ∀ s, c ≠ .store (.commit s))
    (hwrite : ∀ id changes, c ≠ .store (.write id changes))
    (hinsert : ∀ j, c ≠ .store (.insert j)) :
    m'.rows = m.rows := by
  cases ha with
  | @performed c a m' h =>
    have hrows := perform_rows m c
    rw [h] at hrows
    rcases hrows with hrows | ⟨s, rfl⟩ | ⟨id, changes, rfl⟩ | ⟨j, rfl⟩
    · exact hrows
    · exact absurd rfl (hcommit s)
    · exact absurd rfl (hwrite id changes)
    · exact absurd rfl (hinsert j)
  | refused c e => cases c <;> rfl
  | _ => rfl

/-- A commit files what the stage of its unit says. -/
theorem Sound.filing_commit {s : SessionId} (hP : P.Sound) (h : P.Happens d P')
    (hh : d.heard = ⟨.store (.commit s), .ok ()⟩)
    (hs : (P.stage d.unit d.task).session = some s) : P.Filing d := by
  have hfits := (hP.fits_deed h).2
  generalize hst : P.stage d.unit d.task = st at hs hfits
  cases st with
  | opened s' =>
    obtain rfl := Option.some.inj hs
    obtain ⟨held, hown⟩ := hfits
    exact h.filing_nothing hh hown
  | fetched s' j =>
    obtain rfl := Option.some.inj hs
    obtain ⟨_, held, hown, _⟩ := hfits
    exact h.filing_nothing hh hown
  | marked s' j c =>
    obtain rfl := Option.some.inj hs
    obtain ⟨hjob, hmark, hrow, hfiles⟩ := hP.commit_marked h hst hh
    exact .mark hst hh hjob hmark hrow hfiles
  | recording v how s' =>
    obtain rfl := Option.some.inj hs
    obtain ⟨_, held, hown⟩ := hfits
    exact h.filing_nothing hh hown
  | recorded v how s' c =>
    obtain rfl := Option.some.inj hs
    obtain ⟨hjob, hset, r, hrow, hover, hfiles⟩ := hP.commit_recorded h hst hh
    exact .outcome hst hh hjob hset hrow hover hfiles
  | _ => simp [Stage.session] at hs

theorem Sound.filing (hP : P.Sound) (h : P.Happens d P') : P.Filing d := by
  have hd := h
  obtain @⟨u, w, c, k, a, m, hw, hk, ha⟩ := h
  have hmay : May w.task (P.stage u w.task) c := (hP.keeps ⟨hw, hk⟩).1
  obtain ⟨st, hst⟩ : ∃ st, P.stage u w.task = st := ⟨_, rfl⟩
  obtain ⟨t, htask⟩ : ∃ t, w.task = t := ⟨_, rfl⟩
  rw [hst, htask] at hmay
  cases hmay with
  | @commit _ _ s hs =>
    cases ha with
    | refused e => exact .nothing rfl fun _ => rfl
    | performed h =>
      obtain ⟨h₁, rfl⟩ := Prod.mk.inj h
      obtain rfl := Option.some.inj h₁
      exact hP.filing_commit hd rfl (hst ▸ hs)
  | @file _ _ _ _ j hj =>
    cases ha with
    | refused e => exact .nothing rfl fun _ => rfl
    | performed h =>
      obtain ⟨_, rfl⟩ := Prod.mk.inj h
      rcases insert_cases P.memory j with ⟨_, e⟩ | ⟨hnew, e⟩
      · exact .nothing (congrArg (·.2.rows) e) fun _ => rfl
      · refine .insert htask hj hnew (fun k => ?_) fun _ => rfl
        show (P.memory.insert j).2.rows.get? k = _
        rw [e]
        exact Table.get?_set ..
  | _ => exact .nothing (rows_of_answer ha (by simp) (by simp) (by simp)) fun _ => rfl

/-- A row stays, is filed by a commit or is new. -/
theorem Filing.row_cases (h : P.Filing d) (k : JobId) :
    (d.files k = none ∧ d.after.rows.get? k = d.before.rows.get? k) ∨
    (∃ r j, d.files k = some j ∧ d.before.rows.get? k = some r ∧ d.after.rows.get? k = some j) ∨
    (d.files k = none ∧ d.before.rows.get? k = none ∧ ∃ c request id now j,
      d.task = .create c request ∧ request.toJob id now = .ok j ∧
      d.after.rows.get? k = some j) := by
  cases h with
  | nothing hrows hfiles => exact Or.inl ⟨hfiles k, by rw [hrows]⟩
  | @mark s j c _ _ _ _ hrow hfiles =>
    by_cases e : j.id = k
    · subst e
      exact Or.inr (Or.inl ⟨j, _, hfiles.files_self, hrow,
        hfiles.after_self⟩)
    · exact Or.inl ⟨(hfiles.files k).trans (if_neg e), (hfiles.after k).trans (if_neg e)⟩
  | @outcome s v r how c _ _ _ _ hrow _ hfiles =>
    by_cases e : v.id = k
    · subst e
      exact Or.inr (Or.inl ⟨r, _, hfiles.files_self, hrow,
        hfiles.after_self⟩)
    · exact Or.inl ⟨(hfiles.files k).trans (if_neg e), (hfiles.after k).trans (if_neg e)⟩
  | @insert c request id now j htask hj hnew hafter hfiles =>
    by_cases e : j.id = k
    · subst e
      exact Or.inr (Or.inr ⟨hfiles _, hnew, c, request, id, now, j, htask, hj,
        (hafter _).trans (if_pos rfl)⟩)
    · exact Or.inl ⟨hfiles k, (hafter k).trans (if_neg e)⟩

theorem Filing.after_of_files {k : JobId} {j : Job} (h : P.Filing d) (hfile : d.files k = some j) :
    d.after.rows.get? k = some j := by
  rcases h.row_cases k with ⟨hnone, _⟩ | ⟨_, j', hfile', _, hafter⟩ | ⟨hnone, _⟩
  · rw [hnone] at hfile
    simp at hfile
  · exact (Option.some.inj (hfile'.symm.trans hfile)) ▸ hafter
  · rw [hnone] at hfile
    simp at hfile

theorem Filing.after_of_before {k : JobId} {r : Job} (h : P.Filing d) (hnone : d.files k = none)
    (hr : d.before.rows.get? k = some r) : d.after.rows.get? k = some r := by
  rcases h.row_cases k with ⟨_, hsame⟩ | ⟨_, _, hfile, _⟩ | ⟨_, habsent, _⟩
  · exact hsame.trans hr
  · rw [hnone] at hfile
    simp at hfile
  · rw [habsent] at hr
    simp at hr

/-- A row is never lost, and keeps its action and its bound of attempts. -/
theorem Filing.keeps {k : JobId} {r : Job} (h : P.Filing d) (hr : d.before.rows.get? k = some r) :
    ∃ r', d.after.rows.get? k = some r' ∧ r'.action = r.action ∧ r'.tryMax = r.tryMax := by
  cases h with
  | nothing hrows => exact ⟨r, hrows ▸ hr, rfl, rfl⟩
  | @mark s j c _ _ _ _ hrow hfiles =>
    rw [hfiles.after]
    split
    · next e =>
      obtain rfl := Option.some.inj (hr.symm.trans (e ▸ hrow))
      exact ⟨_, rfl, rfl, rfl⟩
    · exact ⟨r, hr, rfl, rfl⟩
  | @outcome s v r' how c _ _ _ _ hrow _ hfiles =>
    rw [hfiles.after]
    split
    · next e =>
      obtain rfl := Option.some.inj (hr.symm.trans (e ▸ hrow))
      exact ⟨_, rfl, rfl, rfl⟩
    · exact ⟨r, hr, rfl, rfl⟩
  | @insert c request id now j _ _ hnew hafter =>
    rw [hafter]
    split
    · next e =>
      rw [e, hr] at hnew
      simp at hnew
    · exact ⟨r, hr, rfl, rfl⟩

/-- A step that is no deed changes no row and moves no unit on. -/
theorem Sound.step_cases (hP : P.Sound) (h : P.Step P') :
    (∃ d, P.Happens d P') ∨
    P'.past = P.past ∧ P'.memory.rows = P.memory.rows ∧
      ∀ v w p, P'.At v w p → P.At v w p ∨ P'.told v = [] := by
  rcases h.cases_past with hd | ⟨hpast, hrows⟩
  · exact Or.inl hd
  refine Or.inr ⟨hpast, hrows, fun v w p hv => ?_⟩
  cases h with
  | start t =>
    rcases at_start hv with hv | ⟨e, _⟩
    · exact Or.inl hv
    · exact Or.inr (hP.untold (Nat.le_of_eq e.symm))
  | answer h => exact absurd (h.past_eq.symm.trans hpast) (by simp)
  | drop hw hp => exact Or.inl (at_drop (At.lt ⟨hw, hp⟩) hv).2
  | clock t => exact Or.inl ⟨hv.unit, hv.rest⟩

theorem stage_of_past (h : P'.past = P.past) (v : Nat) (t : Task) : P'.stage v t = P.stage v t := by
  unfold stage told
  rw [h]

/-! ## history -/

/-- The rows behind some deeds. -/
def rowsBehind (m : Memory) (xs : List Deed) : Table JobId Job :=
  match xs.getLast? with
  | some d => d.after.rows
  | none => m.rows

theorem rowsBehind_concat (m : Memory) (xs : List Deed) (d : Deed) :
    rowsBehind m (xs ++ [d]) = d.after.rows := by
  unfold rowsBehind
  rw [List.getLast?_concat]

/-- Each deed of the past happened to a sound pool, and did to its rows what such a deed does. -/
theorem Reachable.filing (h : Reachable ρ (fresh m now) P) (hm : m.Quiet) {xs ys : List Deed}
    (hsplit : P.past = xs ++ d :: ys) :
    ∃ Q, Reachable ρ (fresh m now) Q ∧ Q.past = xs ∧ Q.memory = d.before ∧ Q.Filing d := by
  obtain ⟨Q, Q', hQ, hxs, hd, _, _⟩ := h.deed rfl hsplit
  exact ⟨Q, hQ, hxs, hd.memory_eq.2, (hQ.sound hm).filing hd⟩

/-- What becomes true of the rows becomes true at some deed. -/
theorem Reachable.flip {φ : Table JobId Job → Prop} (h : Reachable ρ (fresh m now) P)
    {xs ys : List Deed} (hsplit : P.past = xs ++ ys) (hnot : ¬ φ (rowsBehind m xs))
    (hnow : φ P.memory.rows) :
    ∃ as d bs, ys = as ++ d :: bs ∧ ¬ φ d.before.rows ∧ φ d.after.rows := by
  induction h generalizing ys with
  | refl =>
    obtain ⟨rfl, _⟩ := List.append_eq_nil_iff.mp hsplit.symm
    exact absurd hnow hnot
  | @step P P' h hs _ ih =>
    rcases hs.cases_past with ⟨d, hd⟩ | ⟨hpast, hrows⟩
    · rw [hd.memory_eq.1] at hnow
      rw [hd.past_eq] at hsplit
      rcases List.eq_nil_or_concat ys with rfl | ⟨ys, y, rfl⟩
      · rw [List.append_nil] at hsplit
        rw [← hsplit, rowsBehind_concat] at hnot
        exact absurd hnow hnot
      · rw [List.concat_eq_append, ← List.append_assoc] at hsplit
        obtain ⟨hpast, hy⟩ := List.append_inj' hsplit rfl
        obtain rfl := List.singleton_inj.mp hy
        rw [List.concat_eq_append]
        by_cases hbefore : φ P.memory.rows
        · obtain ⟨as, e, bs, rfl, he⟩ := ih hpast hbefore
          exact ⟨as, e, bs ++ [d], by simp, he⟩
        · exact ⟨ys, d, [], rfl, hd.memory_eq.2 ▸ hbefore, hnow⟩
    · exact ih (hpast ▸ hsplit) (hrows ▸ hnow)

/-! ## units -/

theorem Happens.at_before (h : P.Happens d P') :
    ∃ w p, P.At d.unit w p ∧ w.task = d.task ∧ p.question = some d.heard.1 := by
  obtain @⟨u, w, c, k, a, m, hw, hk, ha⟩ := h
  exact ⟨w, _, ⟨hw, hk⟩, rfl, rfl⟩

theorem Happens.at_unit (h : P.Happens d P') : ∃ w p, P'.At d.unit w p ∧ w.task = d.task ∧
    d.asks = p.question ∧
    P'.stage d.unit d.task = hear d.task (P.stage d.unit d.task) d.heard.1 d.heard.2 := by
  obtain @⟨u, w, c, k, a, m, hw, hk, ha⟩ := h
  have hlt := (List.getElem?_eq_some_iff.mp hw).1
  refine ⟨_, (k a).settled, ⟨List.getElem?_set_self hlt, rfl⟩, rfl, rfl, ?_⟩
  exact (stage_goOn _).trans (if_pos rfl)

theorem Happens.at_cases {u : Nat} {w : WorkUnit} {p : Program Engine Upshot}
    (h : P.Happens d P') (hu : P'.At u w p) :
    (d.unit = u ∧ w.task = d.task ∧ p.question = d.asks ∧
      P'.stage u w.task = hear d.task (P.stage d.unit d.task) d.heard.1 d.heard.2) ∨
    (d.unit ≠ u ∧ P.At u w p ∧ P'.stage u w.task = P.stage u w.task) := by
  obtain @⟨v, w', c, k, a, m, hw, hk, ha⟩ := h
  have hlt := (List.getElem?_eq_some_iff.mp hw).1
  rcases at_goOn hlt hu with ⟨rfl, htask, rfl⟩ | ⟨hne, hu⟩
  · refine Or.inl ⟨rfl, htask, rfl, ?_⟩
    rw [htask]
    exact (stage_goOn _).trans (if_pos rfl)
  · exact Or.inr ⟨hne, hu, (stage_goOn _).trans (if_neg hne)⟩

theorem Sound.may {c : EngineCall} {u : Nat} {w : WorkUnit} {p : Program Engine Upshot}
    (hP : P.Sound) (hu : P.At u w p) (hc : p.question = some c) :
    May w.task (P.stage u w.task) c := by
  have hkeeps := hP.keeps hu
  cases p with
  | done => simp [Program.question] at hc
  | crash => simp [Program.question] at hc
  | call c' k => exact Option.some.inj hc ▸ hkeeps.1

theorem Sound.moves (hP : P.Sound) (h : P.Happens d P') :
    Moves d.task (P.stage d.unit d.task) d.heard (P'.stage d.unit d.task) := by
  obtain ⟨_, _, _, _, _, hhear⟩ := h.at_unit
  obtain ⟨w, p, hu, htask, hq⟩ := h.at_before
  rw [hhear]
  exact (htask ▸ hP.may hu hq).moves d.heard.2

/-- What holds at first of a unit, and is kept when it gets an answer, when another one does and
when none does, holds of every unit and its stage. -/
theorem Reachable.stages {I : Pool → Nat → Task → Stage → Prop}
    (h : Reachable ρ (fresh m now) P) (hm : m.Quiet)
    (hidle : ∀ P u t, P.told u = [] → I P u t .idle)
    (hquiet : ∀ P P' u t st, ρ P P' → P.Step P' → P'.past = P.past →
      P'.memory.rows = P.memory.rows → I P u t st → I P' u t st)
    (hother : ∀ P P' d u t st, P.Sound → P.Happens d P' → d.unit ≠ u → I P u t st → I P' u t st)
    (hself : ∀ P P' d st, P.Sound → P.Happens d P' →
      Moves d.task (P.stage d.unit d.task) d.heard st →
      I P d.unit d.task (P.stage d.unit d.task) → I P' d.unit d.task st)
    {u : Nat} {w : WorkUnit} {p : Program Engine Upshot} (hu : P.At u w p) :
    I P u w.task (P.stage u w.task) := by
  induction h generalizing u w p with
  | refl => exact absurd hu.lt (Nat.not_lt_zero _)
  | @step P P' h hs hr ih =>
    have hP := h.sound hm
    rcases hP.step_cases hs with ⟨d, hd⟩ | ⟨hpast, hrows, hat⟩
    · have hd' := hd
      obtain @⟨v, w', c, k, a, m', hw, hk, ha⟩ := hd'
      have hv : P.At v w' (.call c k) := ⟨hw, hk⟩
      rw [stage_goOn]
      rcases at_goOn hv.lt hu with ⟨rfl, htask, _⟩ | ⟨hne, hu⟩
      · rw [if_pos rfl, htask]
        exact hself _ _ _ _ hP hd ((hP.keeps hv).1.moves a) (ih hv)
      · rw [if_neg hne]
        exact hother _ _ _ _ _ _ hP hd hne (ih hu)
    · rcases hat u w p hu with hu | hu
      · rw [stage_of_past hpast]
        exact hquiet _ _ _ _ _ hr hs hpast hrows (ih hu)
      · rw [show P'.stage u w.task = .idle by unfold stage; rw [hu]; rfl]
        exact hidle P' u w.task hu

end Pool

end JobEngine
