import JobEngine.Proofs.Pool.Play
import JobEngine.Proofs.Pool.Rows
import JobEngine.Proofs.Store.Effect

/-!
# A unit that is cut off

One unit runs a job, or puts it back, at a store that others use as well.  They may hold any rows
and commit what they like, but no change of that job.  Wherever the unit is abandoned, what is left
of the job is a whole record: as it was, as the unit marked it, or as the attempt ended.

* `Task.Makes`, `Job.Recorded`   the records that a unit makes of a job;
* `Answers.effect`       what an answer does to a store, also one of a store that fails;
* `Pool.Shared`          one unit at a store that others use;
* `Pool.Standing`        what the row of the job is, by the stage of the unit;
* `Shared.standing`      it always is that;
* `Shared.over`          a session that the unit has left is gone;
* `cut_off_anywhere`     what is left when the unit is abandoned.
-/

namespace JobEngine

open Memory

/-! ## records -/

/-- What a unit makes of a record before any attempt at the job. -/
inductive Task.Makes : Task → Job → Job → Prop
  | claim {c : Controller} {tag : String} {id : JobId} {deadline : Nat} {r : Job} (t : Instant) :
    r.status = .pending →
    Makes (.run c tag id deadline) r { r with status := .running, updated := t }
  | reset {tag : String} {id : JobId} {r : Job} (t : Instant) : r.status = .running →
    Makes (.clean tag id) r { r with status := .pending, updated := t }

/-- The record of an attempt at the job `v` that ended so. -/
inductive Job.Recorded (v : Job) : Except ActionError Json → Job → Prop
  | finished (result : Json) (t : Instant) :
    Recorded v (.ok result)
      { v with
        status := .finished, trys := v.nextAttempt, error := none, params := v.params.redact,
        result := some result, updated := t }
  | exhausted {now : Instant} {n : UInt32} (e : ActionError) (t : Instant) :
    v.onFailure now = some (.exhausted n) →
    Recorded v (.error e)
      { v with
        status := .error, trys := n, error := some e.message, params := v.params.redact,
        updated := t }
  | rescheduled {now runAt : Instant} {n : UInt32} (e : ActionError) (t : Instant) :
    v.onFailure now = some (.retry n runAt) →
    Recorded v (.error e) { v with status := .pending, trys := n, runAt, updated := t }

section
variable {t : Task} {r v j : Job} {how : Except ActionError Json} {c : Changes}

theorem Task.Marks.makes (h : t.Marks r c) : t.Makes r (c.overwrite r) := by
  cases h with
  | claim stamp hr => exact .claim stamp hr
  | reset stamp hr => exact .reset stamp hr

theorem Settles.recorded (h : Settles v how c) : v.Recorded how (c.overwrite v) := by
  cases h with
  | finished result stamp => exact .finished result stamp
  | exhausted e stamp h => exact .exhausted e stamp h
  | retry e stamp h => exact .rescheduled e stamp h

theorem Task.Makes.ne (h : t.Makes r v) : v ≠ r := by
  intro e
  have hstatus := congrArg Job.status e
  cases h with
  | claim stamp hr => simp [hr] at hstatus
  | reset stamp hr => simp [hr] at hstatus

theorem Task.Makes.running (h : t.Makes r v) (ht : t.runs.isSome) : v.status = .running := by
  cases h with
  | claim => rfl
  | reset => exact absurd ht Bool.false_ne_true

theorem Job.Recorded.not_running (h : v.Recorded how j) : j.status ≠ .running := by
  cases h <;> simp

/-- An attempt shows in the record: the status is another, or a try is used up. -/
theorem Job.Recorded.ne (h : v.Recorded how j) (hmake : t.Makes r v) (ht : t.runs.isSome) :
    j ≠ r := by
  cases hmake with
  | reset => exact absurd ht Bool.false_ne_true
  | claim stamp hr =>
    intro e
    have hstatus : j.status = .pending := e ▸ hr
    cases h with
    | finished => simp at hstatus
    | exhausted => simp at hstatus
    | @rescheduled now runAt n e' stamp' hfail =>
      obtain ⟨hleft, _⟩ := Job.of_onFailure_retry hfail
      have hn : n = Job.nextAttempt { r with status := .running, updated := stamp } :=
        Job.attempt_of_onFailure hfail
      have hnext := Job.toNat_nextAttempt_of_lt (Nat.lt_of_succ_lt hleft)
      rw [← hn, show n = r.trys from congrArg Job.trys e] at hnext
      exact absurd hnext (Nat.ne_of_lt (Nat.lt_succ_self _))

end

/-! ## sessions that are over -/

namespace Memory

variable {m m' : Memory} {s : SessionId} {e : Event}

/-- The session was open once, and is no more. -/
structure Gone (m : Memory) (s : SessionId) : Prop where
  closed : m.sessions.get? s = none
  lt_next : s < m.nextSession

theorem Gone.next (hs : m.Gone s) (h : Effect m e m') : m'.Gone s where
  closed := by
    cases hs' : m'.sessions.get? s with
    | none => rfl
    | some own' =>
      rcases h.back hs' with ⟨own, hown, _⟩ | ⟨_, hle⟩
      · rw [hs.closed] at hown
        simp at hown
      · exact absurd hs.lt_next (Nat.not_lt.mpr hle)
  lt_next := Nat.lt_of_lt_of_le hs.lt_next h.next_le

theorem Effect.gone {own : Session} (h : Effect m e m') (hm : m.Coherent)
    (hs : m.sessions.get? s = some own) (hends : e.1.ends? = some s) : m'.Gone s where
  closed := by
    cases hs' : m'.sessions.get? s with
    | none => rfl
    | some own' =>
      rcases h.back hs' with ⟨_, _, hne⟩ | ⟨_, hle⟩
      · exact absurd hends hne
      · exact absurd (hm.lt_next hs) (Nat.not_lt.mpr hle)
  lt_next := Nat.lt_of_lt_of_le (hm.lt_next hs) h.next_le

/-- What is gone is not open, and holds no row. -/
theorem Gone.left_nothing (hs : m.Gone s) (hm : m.Coherent) :
    m.isOpen s = false ∧ ∀ id, m.locks.get? id ≠ some s := by
  constructor
  · rw [Memory.isOpen, Table.contains, hs.closed]
    rfl
  · intro id h
    obtain ⟨own, hown, _⟩ := hm.locked_iff.mp h
    rw [hs.closed] at hown
    simp at hown

theorem gone_close {own : Session} (hm : m.Coherent) (hs : m.sessions.get? s = some own) :
    (m.close s).Gone s :=
  ⟨(get?_close s s).trans (if_pos rfl), hm.lt_next hs⟩

theorem Gone.close (hs : m.Gone s) (s' : SessionId) : (m.close s').Gone s where
  closed := by
    rw [get?_close]
    split
    · rfl
    · exact hs.closed
  lt_next := hs.lt_next

end Memory

/-- What becomes of the session of a unit. -/
inductive SessionTurn (s : Option SessionId) : Heard → Option SessionId → Prop
  | opens (n : SessionId) : s = none → SessionTurn s ⟨.store .begin, .ok n⟩ (some n)
  | ends {c : StoreCall} {a : c.Answer} {n : SessionId} : s = some n → c.ends? = some n →
    SessionTurn s ⟨.store c, a⟩ none
  | stays {h : Heard} : (∀ n, h ≠ ⟨.store .begin, .ok n⟩) → SessionTurn s h s

section
variable {m m' : Memory} {now : Instant} {t : Task} {st : Stage}

theorem May.sessionTurn {c : EngineCall} (h : May t st c) (a : c.Answer) :
    SessionTurn st.session ⟨c, a⟩ (Pool.sessionBehind st.session ⟨c, a⟩) := by
  have hbegin (a : StoreCall.begin.Answer) (hst : st.session = none) :
      SessionTurn st.session ⟨.store .begin, a⟩
        (Pool.sessionBehind st.session ⟨.store .begin, a⟩) := by
    match a with
    | .ok n => exact .opens n hst
    | .error e => exact .stays fun n h => by injection h with _ h; simp at h
  cases h with
  | enter | reenter | giveUp => exact hbegin a rfl
  | commit hs | rollback hs => exact .ends hs rfl
  | _ => exact .stays fun n h => by injection h with h; simp at h

theorem May.admits {c : StoreCall} (h : May t st (.store c)) (hfits : t.Fits m st) :
    m.Admits c := by
  intro s hs
  refine isOpen_iff.mpr (hfits.isOpen ?_)
  cases h with
  | fetch | mark | settle => exact hs
  | commit hst | rollback hst => exact hst.trans hs
  | _ => simp [StoreCall.session?] at hs

/-- A call that fails does what was described, too. -/
theorem Answers.effect {c : StoreCall} {a : c.Answer} (hm : m.Coherent) (hadm : m.Admits c)
    (hkept : ∀ s, c ≠ .discard s) (ha : Answers m now (.store c) a m') : Effect m ⟨c, a⟩ m' := by
  cases ha with
  | performed hp =>
    have hserves : Serves 0 m ⟨c, a⟩ m' := .answered hadm hp
    exact hserves.effect hm
  | refused c e =>
    cases c with
    | discard s => exact absurd rfl (hkept s)
    | commit s | rollback s =>
      obtain ⟨own, hs⟩ := isOpen_iff.mp (hadm s rfl)
      exact effect_close hm hs rfl rfl ⟨rfl, fun _ => ⟨rfl, rfl⟩⟩
    | _ => exact effect_quiet hm rfl (fun _ _ => rfl) ⟨rfl, fun _ => ⟨rfl, rfl⟩⟩

theorem May.effect {c : StoreCall} {a : c.Answer} (h : May t st (.store c)) (hm : m.Coherent)
    (hfits : t.Fits m st) (ha : Answers m now (.store c) a m') : Effect m ⟨c, a⟩ m' :=
  ha.effect hm (h.admits hfits) fun s e => by
    subst e
    cases h

end

namespace Pool

variable {P P' : Pool} {d : Deed} {t : Task} {id : JobId} {m m' m₀ : Memory} {u : Nat}
  {w : WorkUnit} {p : Program Engine Upshot}

/-! ## one unit and others -/

/-- A unit with the task `t` at a store that others use; they leave alone the sessions of the unit
and the row of `id`. -/
inductive Shared (t : Task) (id : JobId) (m₀ : Memory) : Pool → Prop
  | start (now : Instant) : Shared t id m₀ ((fresh m₀ now).start t)
  | answer {P P' : Pool} {d : Deed} : Shared t id m₀ P → P.Happens d P' → Shared t id m₀ P'
  | clock {P : Pool} (now : Instant) : Shared t id m₀ P → Shared t id m₀ { P with now }
  | others {P : Pool} {wait : Nat} {e : Event} {m : Memory} : Shared t id m₀ P →
    Serves wait P.memory e m → (∀ s, P.session 0 = some s → e.1.session? ≠ some s) →
    m.rows.get? id = P.memory.rows.get? id → Shared t id m₀ { P with memory := m }

/-- A session that unit `u` has opened. -/
def Opened (P : Pool) (u : Nat) (s : SessionId) : Prop := ⟨.store .begin, .ok s⟩ ∈ P.told u

theorem sessionBehind_eq_some {o : Option SessionId} {h : Heard} {s : SessionId}
    (hs : sessionBehind o h = some s) : h = ⟨.store .begin, .ok s⟩ ∨ o = some s := by
  unfold sessionBehind at hs
  split at hs
  · exact Or.inl (by rw [Option.some.inj hs])
  · simp at hs
  · simp at hs
  · simp at hs
  · exact Or.inr hs

theorem opened_of_foldl {hs : List Heard} {o : Option SessionId} {s : SessionId}
    (h : hs.foldl sessionBehind o = some s) : o = some s ∨ ⟨.store .begin, .ok s⟩ ∈ hs := by
  induction hs generalizing o with
  | nil => exact Or.inl h
  | cons x hs ih =>
    rcases ih h with h | h
    · rcases sessionBehind_eq_some h with rfl | h
      · exact Or.inr List.mem_cons_self
      · exact Or.inl h
    · exact Or.inr (List.mem_cons_of_mem _ h)

theorem opened_of_session {s : SessionId} (h : P.session u = some s) : P.Opened u s :=
  (opened_of_foldl h).resolve_left (by simp)

theorem Sound.others (hP : P.Sound) (hm : m.Coherent)
    (hl : ∀ u w p s, P.At u w p → P.session u = some s → Leaves s P.memory m) :
    ({ P with memory := m } : Pool).Sound where
  coherent := hm
  keeps h := hP.keeps ⟨h.unit, h.rest⟩
  fits {u w p} h := (hP.fits ⟨h.unit, h.rest⟩).of_leaves fun s hs =>
    hl u w p s ⟨h.unit, h.rest⟩ ((hP.session ⟨h.unit, h.rest⟩).trans hs)
  session h := hP.session ⟨h.unit, h.rest⟩
  apart h h' := hP.apart ⟨h.unit, h.rest⟩ ⟨h'.unit, h'.rest⟩
  untold := hP.untold
  silent l h := hP.silent l ⟨h.unit, h.rest⟩

theorem Shared.unit (h : Shared t id m₀ P) : ∃ rest, P.units = [⟨t, rest⟩] := by
  induction h with
  | start now => exact ⟨_, rfl⟩
  | answer _ hd ih =>
    obtain ⟨rest, ih⟩ := ih
    obtain @⟨u, w, c, k, a, m, hw, hk, ha⟩ := hd
    rw [ih] at hw
    obtain ⟨rfl, rfl⟩ : u = 0 ∧ w = ⟨t, rest⟩ := by
      cases u with
      | zero => exact ⟨rfl, (Option.some.inj hw).symm⟩
      | succ u => simp at hw
    exact ⟨_, by unfold goOn; rw [ih]; rfl⟩
  | clock _ _ ih => exact ih
  | others _ _ _ _ ih => exact ih

theorem Shared.at_unit (h : Shared t id m₀ P) (hu : P.At u w p) : u = 0 ∧ w.task = t := by
  obtain ⟨rest, hrest⟩ := h.unit
  have hw := hu.unit
  rw [hrest] at hw
  cases u with
  | zero => exact ⟨rfl, by rw [← Option.some.inj hw]⟩
  | succ u => simp at hw

theorem Shared.deed (h : Shared t id m₀ P) (hd : P.Happens d P') : d.unit = 0 ∧ d.task = t := by
  obtain ⟨w, p, hu, htask, _⟩ := hd.at_before
  obtain ⟨hunit, ht⟩ := h.at_unit hu
  exact ⟨hunit, htask ▸ ht⟩

theorem Shared.sound (h : Shared t id m₀ P) (hm : m₀.Coherent) : P.Sound := by
  induction h with
  | start now => exact sound_start (sound_fresh hm now) t
  | answer _ hd ih => exact sound_happens ih hd
  | clock now _ ih => exact sound_step ih (.clock now)
  | others h he hs _ ih =>
    have heffect := he.effect ih.coherent
    refine ih.others heffect.coherent fun u w p s hu hown => heffect.leaves (hs s ?_)
    exact (h.at_unit hu).1 ▸ hown

theorem Happens.told_eq (hd : P.Happens d P') : P'.told d.unit = P.told d.unit ++ [d.heard] := by
  obtain @⟨u, w, c, k, a, m, hw, hk, ha⟩ := hd
  exact (told_goOn ..).trans (if_pos rfl)

theorem Happens.session_eq (hd : P.Happens d P') :
    P'.session d.unit = sessionBehind (P.session d.unit) d.heard := by
  obtain @⟨u, w, c, k, a, m, hw, hk, ha⟩ := hd
  exact session_goOn.trans (if_pos rfl)

/-- What a unit has opened is the session that it has, or is gone. -/
def Over (P : Pool) (u : Nat) : Prop :=
  ∀ s, P.Opened u s → P.session u = some s ∨ P.memory.Gone s

theorem Sound.gone {s : SessionId} (hP : P.Sound) (hd : P.Happens d P') (hs : P.memory.Gone s) :
    P'.memory.Gone s := by
  obtain @⟨u, w, c, k, a, m, hw, hk, ha⟩ := hd
  have hu : P.At u w (.call c k) := ⟨hw, hk⟩
  cases c with
  | store c => exact hs.next ((hP.keeps hu).1.effect hP.coherent (hP.fits hu) ha)
  | _ => cases ha; exact hs

theorem Over.happens (h : P.Over d.unit) (hP : P.Sound) (hd : P.Happens d P') :
    P'.Over d.unit := by
  intro s hs
  have hgone := hP.gone hd (s := s)
  have hsession := hd.session_eq
  unfold Opened at hs
  rw [hd.told_eq, List.mem_append, List.mem_singleton] at hs
  obtain @⟨u, w, c, k, a, m, hw, hk, ha⟩ := hd
  have hu : P.At u w (.call c k) := ⟨hw, hk⟩
  have hown := hP.session hu
  have hturn := (hP.keeps hu).1.sessionTurn a
  rw [← hown] at hturn
  change ⟨.store .begin, .ok s⟩ ∈ P.told u ∨ ⟨.store .begin, .ok s⟩ = (⟨c, a⟩ : Heard) at hs
  change (P.goOn u w ⟨c, a⟩ (k a) m).session u = sessionBehind (P.session u) ⟨c, a⟩ at hsession
  show (P.goOn u w ⟨c, a⟩ (k a) m).session u = some s ∨ _
  rw [hsession]
  generalize sessionBehind (P.session u) ⟨c, a⟩ = s' at hturn
  cases hturn with
  | opens n hnone =>
    rcases hs with hs | hs
    · refine Or.inr (hgone ((h s hs).resolve_left ?_))
      show P.session u ≠ some s
      rw [hnone]
      simp
    · injection hs with _ hs
      exact Or.inl (congrArg some (Except.ok.inj hs).symm)
  | @ends c a n hsome hends =>
    right
    rcases hs with hs | hs
    · rcases h s hs with hhas | hover
      · obtain rfl : n = s := Option.some.inj (hsome.symm.trans hhas)
        obtain ⟨own, hopen⟩ := (hP.fits hu).isOpen (hown.symm.trans hhas)
        exact ((hP.keeps hu).1.effect hP.coherent (hP.fits hu) ha).gone hP.coherent hopen hends
      · exact hgone hover
    · injection hs with hc
      rw [← EngineCall.store.inj hc] at hends
      simp [StoreCall.ends?] at hends
  | stays hno =>
    rcases hs with hs | hs
    · exact (h s hs).imp_right hgone
    · exact absurd hs.symm (hno s)

theorem Shared.over (h : Shared t id m₀ P) (hm : m₀.Coherent) : P.Over 0 := by
  induction h with
  | start now => exact fun s hs => absurd hs List.not_mem_nil
  | answer h hd ih => exact (h.deed hd).1 ▸ ((h.deed hd).1.symm ▸ ih).happens (h.sound hm) hd
  | clock now _ ih => exact ih
  | others h he _ _ ih =>
    exact fun s hs => (ih s hs).imp_right fun hgone => hgone.next (he.effect (h.sound hm).coherent)

/-! ## the row of the job -/

/-- What a unit with the task `t` has made of the row that it found. -/
def Makes (t : Task) (id : JobId) (m₀ : Memory) (v : Job) : Prop :=
  ∃ r, m₀.rows.get? id = some r ∧ t.Makes r v

/-- An attempt at the job `v` ended so: as its action did, if the worker knows it. -/
def Learns (t : Task) (told : List Heard) (v : Job) (how : Except ActionError Json) : Prop :=
  ∃ c tag id deadline, t = .run c tag id deadline ∧
    ((∃ r, (⟨.invoke (v.invocation deadline), r⟩ : Heard) ∈ told ∧
      how = (v.invocation deadline).ending r) ∨
    c.kinds.contains v.action = false ∧ how = .error (.unsupported v.action))

/-- What may be left of the row. -/
inductive Remains
  | asBefore
  | marked
  | recorded
deriving DecidableEq

/-- The row of the job, compared to what it was. -/
def Remains.Are (t : Task) (id : JobId) (m₀ : Memory) (told : List Heard) (row : Option Job) :
    Remains → Prop
  | asBefore => row = m₀.rows.get? id
  | marked => ∃ v, Makes t id m₀ v ∧ row = some v
  | recorded => ∃ v how j, Makes t id m₀ v ∧ Learns t told v how ∧ v.Recorded how j ∧ row = some j

/-- What the row of the job is while its unit is at a stage. -/
def Standing (t : Task) (id : JobId) (m₀ : Memory) (told : List Heard) (row : Option Job) :
    Stage → Prop
  | .claimed => ∃ v, Makes t id m₀ v ∧ row = some v
  | .loaded v => Makes t id m₀ v ∧ row = some v
  | .invoked v how | .recording v how _ | .recorded v how _ _ =>
    Makes t id m₀ v ∧ row = some v ∧ Learns t told v how
  | .ended => ∃ x : Remains, x.Are t id m₀ told row
  | _ => row = m₀.rows.get? id

section
variable {told : List Heard} {row : Option Job} {st st' : Stage} {h : Heard} {v : Job}
  {how : Except ActionError Json}

theorem Learns.mono (hl : Learns t told v how) (h : Heard) : Learns t (told ++ [h]) v how := by
  obtain ⟨c, tag, id, deadline, ht, ⟨r, hr, hhow⟩ | hno⟩ := hl
  · exact ⟨c, tag, id, deadline, ht, Or.inl ⟨r, List.mem_append_left _ hr, hhow⟩⟩
  · exact ⟨c, tag, id, deadline, ht, Or.inr hno⟩

theorem Remains.Are.mono {x : Remains} (hx : x.Are t id m₀ told row) (h : Heard) :
    x.Are t id m₀ (told ++ [h]) row := by
  cases x with
  | asBefore => exact hx
  | marked => exact hx
  | recorded =>
    obtain ⟨v, how, j, hmake, hlearn, hj⟩ := hx
    exact ⟨v, how, j, hmake, hlearn.mono h, hj⟩

theorem Standing.mono (hs : Standing t id m₀ told row st) (h : Heard) :
    Standing t id m₀ (told ++ [h]) row st := by
  cases st with
  | invoked v how => exact ⟨hs.1, hs.2.1, hs.2.2.mono h⟩
  | recording v how s => exact ⟨hs.1, hs.2.1, hs.2.2.mono h⟩
  | recorded v how s c => exact ⟨hs.1, hs.2.1, hs.2.2.mono h⟩
  | ended =>
    obtain ⟨x, hx⟩ := hs
    exact ⟨x, hx.mono h⟩
  | _ => exact hs

/-- At every stage the row is whole. -/
theorem Standing.remains (hs : Standing t id m₀ told row st) :
    ∃ x : Remains, x.Are t id m₀ told row := by
  cases st with
  | claimed => exact ⟨.marked, hs⟩
  | loaded v => exact ⟨.marked, v, hs⟩
  | invoked v how => exact ⟨.marked, v, hs.1, hs.2.1⟩
  | recording v how s => exact ⟨.marked, v, hs.1, hs.2.1⟩
  | recorded v how s c => exact ⟨.marked, v, hs.1, hs.2.1⟩
  | ended => exact hs
  | _ => exact ⟨.asBefore, hs⟩

/-- An answer that leaves the row alone. -/
theorem Standing.moves (hs : Standing t id m₀ told row st) (hmove : Moves t st h st')
    (hjob : t.job = some id)
    (hclaim : ∀ s j c, st = .marked s j c → h ≠ ⟨.store (.commit s), .ok ()⟩)
    (hload : ∀ v, h = ⟨.store (.read id), .ok (some v)⟩ → row = some v) :
    Standing t id m₀ (told ++ [h]) row st' := by
  cases hmove with
  | stays => exact hs.mono h
  | ends => exact (hs.mono h).remains
  | isTold | lists | enters | fetches | marks => exact hs
  | claims => exact absurd rfl (hclaim _ _ _ rfl)
  | @loads id' v hruns =>
    obtain rfl : id = id' := Option.some.inj (hjob.symm.trans (Task.job_of_runs hruns))
    obtain ⟨v', hmake, hrow⟩ := hs
    have hv := hload v rfl
    obtain rfl : v' = v := Option.some.inj (hrow.symm.trans hv)
    exact ⟨hmake, hv⟩
  | @invokes c tag id' deadline v r ht =>
    refine ⟨hs.1, hs.2, c, tag, id', deadline, ht, Or.inl ⟨r, ?_, rfl⟩⟩
    exact List.mem_append_right _ (List.mem_singleton.mpr rfl)
  | reenters => exact hs.mono ⟨_, _⟩
  | @givesUp v s hk =>
    cases t with
    | run c tag id' deadline => exact ⟨hs.1, hs.2, c, tag, id', deadline, rfl, Or.inr ⟨hk, rfl⟩⟩
    | _ => simp [Task.knows] at hk
  | settles => exact hs.mono ⟨_, _⟩

end

/-- An answer that files the row. -/
theorem Standing.files {j : Job} (hP : P.Sound) (hd : P.Happens d P')
    (hjob : d.task.job = some id) (hfile : d.files id = some j)
    (hs : Standing d.task id m₀ (P.told d.unit) (P.memory.rows.get? id)
      (P.stage d.unit d.task)) :
    Standing d.task id m₀ (P'.told d.unit) (some j) (P'.stage d.unit d.task) := by
  have hmove := hP.moves hd
  rw [hd.told_eq]
  rw [hd.memory_eq.2] at hs
  cases hP.filing hd with
  | nothing _ hfiles | insert _ _ _ _ hfiles =>
    rw [hfiles] at hfile
    simp at hfile
  | @mark s r c hst hh hjob' hmark hrow hfiles =>
    obtain ⟨rfl, rfl⟩ := hfiles.eq_of_files hfile
    rw [hst] at hs hmove
    have hmake : Makes d.task r.id m₀ (c.overwrite r) :=
      ⟨r, (Eq.symm hs).trans hrow, hmark.makes⟩
    rw [hh] at hmove
    generalize P'.stage d.unit d.task = st at hmove
    cases hmove with
    | stays _ hno => exact absurd rfl (hno s)
    | ends => exact ⟨.marked, _, hmake, rfl⟩
    | claims => exact ⟨_, hmake, rfl⟩
  | @outcome s v r how c hst hh hruns hset hrow hover hfiles =>
    obtain ⟨rfl, rfl⟩ := hfiles.eq_of_files hfile
    rw [hst] at hs hmove
    obtain ⟨hmake, hv, hlearn⟩ := hs
    obtain rfl : r = v := Option.some.inj (hrow.symm.trans hv)
    rw [hh] at hmove
    generalize P'.stage d.unit d.task = st at hmove
    cases hmove with
    | stays _ hno => exact absurd rfl (hno s)
    | ends => exact ⟨.recorded, _, how, _, hmake, hlearn.mono _, hset.recorded, rfl⟩

theorem Standing.happens (hP : P.Sound) (hd : P.Happens d P') (hjob : d.task.job = some id)
    (hs : Standing d.task id m₀ (P.told d.unit) (P.memory.rows.get? id)
      (P.stage d.unit d.task)) :
    Standing d.task id m₀ (P'.told d.unit) (P'.memory.rows.get? id) (P'.stage d.unit d.task) := by
  rcases (hP.filing hd).row_cases id with
    ⟨hnone, hsame⟩ | ⟨r, j, hfile, _, hafter⟩ | ⟨_, _, _, _, _, _, _, htask, _⟩
  · rw [hd.told_eq, hd.memory_eq.1, hsame, ← hd.memory_eq.2]
    refine hs.moves (hP.moves hd) hjob (fun s j c hst hh => ?_)
      fun v hh => hd.memory_eq.2 ▸ hd.read_eq hh
    -- a mark that is committed is filed
    obtain ⟨hjob', _, _, hfiles⟩ := hP.commit_marked hd hst hh
    rw [hfiles.files, if_pos (Option.some.inj (hjob'.symm.trans hjob))] at hnone
    simp at hnone
  · rw [hd.memory_eq.1, hafter]
    exact hs.files hP hd hjob hfile
  · rw [htask] at hjob
    simp [Task.job] at hjob

theorem Shared.standing (h : Shared t id m₀ P) (hm : m₀.Coherent) (hjob : t.job = some id) :
    Standing t id m₀ (P.told 0) (P.memory.rows.get? id) (P.stage 0 t) := by
  induction h with
  | start now => rfl
  | @answer P P' d h hd ih =>
    obtain ⟨hunit, htask⟩ := h.deed hd
    subst htask
    have hs : Standing d.task id m₀ (P.told d.unit) (P.memory.rows.get? id)
        (P.stage d.unit d.task) := hunit.symm ▸ ih
    exact hunit ▸ hs.happens (h.sound hm) hd hjob
  | clock now _ ih => exact ih
  | others _ _ _ hrow ih => exact hrow ▸ ih

/-- The unit changes no other row. -/
theorem Shared.elsewhere (h : Shared t id m₀ P) (hm : m₀.Coherent) (hjob : t.job = some id) :
    ∀ d ∈ P.past, ∀ k, k ≠ id → d.after.rows.get? k = d.before.rows.get? k := by
  induction h with
  | start now => exact fun d hd => absurd hd List.not_mem_nil
  | @answer P P' d h hd ih =>
    intro e he k hk
    rw [hd.past_eq] at he
    rcases List.mem_append.mp he with he | he
    · exact ih e he k hk
    obtain rfl := List.mem_singleton.mp he
    have htask := (h.deed hd).2
    rw [← htask] at hjob
    cases (h.sound hm).filing hd with
    | nothing hrows => rw [hrows]
    | mark _ _ hjob' _ _ hfiles =>
      refine (hfiles.after k).trans (if_neg fun e => hk ?_)
      exact e ▸ Option.some.inj (hjob'.symm.trans hjob)
    | outcome _ _ hruns _ _ _ hfiles =>
      refine (hfiles.after k).trans (if_neg fun e => hk ?_)
      exact e ▸ Option.some.inj ((Task.job_of_runs hruns).symm.trans hjob)
    | insert ht => rw [ht] at hjob; simp [Task.job] at hjob
  | clock now _ ih => exact ih
  | others _ _ _ _ ih => exact ih

/-! ## the cut -/

theorem Learns.runs {told : List Heard} {v : Job} {how : Except ActionError Json}
    (h : Learns t told v how) : t.runs.isSome := by
  obtain ⟨c, tag, id, deadline, rfl, _⟩ := h
  rfl

/-- What is left of the row is one thing only. -/
theorem Remains.Are.unique {told : List Heard} {row : Option Job} {x y : Remains}
    (hx : x.Are t id m₀ told row) (hy : y.Are t id m₀ told row) : x = y := by
  have hmarked (hbefore : row = m₀.rows.get? id) : ¬ marked.Are t id m₀ told row := by
    rintro ⟨v, ⟨r, hr, hmake⟩, hv⟩
    exact hmake.ne (Option.some.inj (hv.symm.trans (hbefore.trans hr)))
  have hrecorded (hbefore : row = m₀.rows.get? id) : ¬ recorded.Are t id m₀ told row := by
    rintro ⟨v, how, j, ⟨r, hr, hmake⟩, hlearn, hrec, hj⟩
    exact hrec.ne hmake hlearn.runs (Option.some.inj (hj.symm.trans (hbefore.trans hr)))
  have hboth (hmark : marked.Are t id m₀ told row) : ¬ recorded.Are t id m₀ told row := by
    rintro ⟨_, _, j, _, hlearn, hrec, hj⟩
    obtain ⟨v, ⟨r, _, hmake⟩, hv⟩ := hmark
    obtain rfl : v = j := Option.some.inj (hv.symm.trans hj)
    exact hrec.not_running (hmake.running hlearn.runs)
  cases x <;> cases y
  · rfl
  · exact absurd hy (hmarked hx)
  · exact absurd hy (hrecorded hx)
  · exact absurd hx (hmarked hy)
  · rfl
  · exact absurd hy (hboth hx)
  · exact absurd hx (hrecorded hy)
  · exact absurd hx (hboth hy)
  · rfl

/-- Behind the cut no session of the unit is left. -/
theorem Shared.gone_drop {s : SessionId} (h : Shared t id m₀ P) (hm : m₀.Coherent)
    (hu : P.At 0 w p) (hs : P.Opened 0 s) :
    (P.drop 0 w).memory.Gone s ∧ (P.drop 0 w).memory.Coherent := by
  have hP := h.sound hm
  refine ⟨?_, (sound_drop hP hu).coherent⟩
  unfold drop
  rcases h.over hm s hs with hhas | hgone
  · obtain ⟨own, hopen⟩ := (hP.fits hu).isOpen ((hP.session hu).symm.trans hhas)
    rw [hhas]
    exact gone_close hP.coherent hopen
  · cases P.session 0 with
    | none => exact hgone
    | some s' => exact hgone.close s'

/-- **A unit that is cut off leaves whole records.**  A unit that runs a job, or puts it back, works
at any store that other sessions use, which may hold any row and commit anything but a change of
that job.  Wherever the unit is abandoned, none of the sessions that it has opened is open or holds
a row; it has changed no other row; and the row of the job is exactly one of three: as it was before
the unit; that record as the unit marked it; or the whole record of how the attempt ended, as the
action ended it. -/
theorem cut_off_anywhere (hm : m₀.Coherent) (hjob : t.job = some id) (h : Shared t id m₀ P)
    (hu : P.At 0 w p) :
    (∀ s, P.Opened 0 s → (P.drop 0 w).memory.isOpen s = false ∧
      ∀ k, (P.drop 0 w).memory.locks.get? k ≠ some s) ∧
    (∀ d ∈ P.past, ∀ k, k ≠ id → d.after.rows.get? k = d.before.rows.get? k) ∧
    (P.drop 0 w).memory.rows = P.memory.rows ∧
    (∃ x : Remains, x.Are t id m₀ (P.told 0) ((P.drop 0 w).memory.rows.get? id) ∧
      ∀ y : Remains, y.Are t id m₀ (P.told 0) ((P.drop 0 w).memory.rows.get? id) → y = x) ∧
    (t.cleans → ¬ Remains.recorded.Are t id m₀ (P.told 0)
      ((P.drop 0 w).memory.rows.get? id)) := by
  have hP := h.sound hm
  have hrows : (P.drop 0 w).memory.rows = P.memory.rows := by
    unfold drop
    cases P.session 0 <;> rfl
  refine ⟨fun s hs => ?_, h.elsewhere hm hjob, hrows, ?_, ?_⟩
  · obtain ⟨hgone, hcoherent⟩ := h.gone_drop hm hu hs
    exact hgone.left_nothing hcoherent
  · rw [hrows]
    obtain ⟨x, hx⟩ := (h.standing hm hjob).remains
    exact ⟨x, hx, fun y hy => hy.unique hx⟩
  · rintro hclean ⟨_, _, _, _, hlearn, _⟩
    have hruns := hlearn.runs
    cases t <;> simp [Task.runs, Task.cleans] at hruns hclean

/-- The pool behind `n` answers to the unit, with an action that takes too long. -/
def behind : Nat → Pool → Pool
  | 0, P => P
  | n + 1, P => behind n ((P.follow (.go 0)).getD P)

theorem Shared.behind (h : Shared t id m₀ P) (n : Nat) : Shared t id m₀ (behind n P) := by
  induction n generalizing P with
  | zero => exact h
  | succ n ih =>
    refine ih ?_
    cases hP : P.follow (.go 0) with
    | none => exact h
    | some P' =>
      obtain ⟨d, hd⟩ := happens_go hP
      exact h.answer hd

/-- The job's row is held by somebody else. -/
def heldStore : Memory where
  rows := [(lone.id, lone)]
  locks := [(lone.id, 1)]
  sessions := [(1, { held := [lone.id] })]
  nextSession := 2

theorem heldStore_coherent : heldStore.Coherent :=
  coherent_of_serveAll [.insert lone, .begin, .get 1 lone.id true] (by decide)

/-- The unit waits for the row, gets it, and is cut off when the outcome of its attempt is staged,
with the row in its hands. -/
theorem outcome_not_committed : ∃ P w p, Shared loneRun lone.id heldStore P ∧ P.At 0 w p ∧
    P.memory.locks.get? lone.id = some 3 ∧ (P.drop 0 w).memory.locks.get? lone.id = none ∧
    (P.drop 0 w).memory.isOpen 3 = false ∧
    Remains.marked.Are loneRun lone.id heldStore (P.told 0)
      ((P.drop 0 w).memory.rows.get? lone.id) := by
  let waiting : Pool := behind 1 ((fresh heldStore .epoch).start loneRun)
  let freed : Pool := { waiting with memory := waiting.memory.close 1 }
  let cut : Pool := behind 12 freed
  have hwaiting : Shared loneRun lone.id heldStore waiting := (Shared.start .epoch).behind 1
  have hserves : Serves 0 waiting.memory ⟨.rollback 1, .ok ()⟩ (waiting.memory.close 1) :=
    .answered (fun s hs => Option.some.inj hs ▸ by decide +kernel) rfl
  have hother : ∀ s, waiting.session 0 = some s → (some 1 : Option SessionId) ≠ some s := by
    have h : waiting.session 0 = some 2 := by decide +kernel
    intro s hs
    rw [h] at hs
    exact fun e => by rw [← hs] at e; simp at e
  have hcut : Shared loneRun lone.id heldStore cut :=
    (hwaiting.others hserves hother rfl).behind 12
  obtain ⟨rest, hunits⟩ := hcut.unit
  have hlive : (cut.units[0]?.bind WorkUnit.question).isSome := by decide +kernel
  rw [hunits] at hlive
  obtain ⟨p, hp⟩ : ∃ p, rest = some p := by
    cases rest with
    | none => simp [WorkUnit.question] at hlive
    | some p => exact ⟨p, rfl⟩
  have hu : cut.At 0 ⟨loneRun, rest⟩ p := ⟨by rw [hunits]; rfl, hp⟩
  have hopened : cut.Opened 0 3 := opened_of_session (by decide +kernel)
  obtain ⟨hsessions, -, hrows, -⟩ := cut_off_anywhere heldStore_coherent rfl hcut hu
  have hmarked : Makes loneRun lone.id heldStore { lone with status := .running } :=
    ⟨lone, rfl, .claim .epoch rfl⟩
  have hrow : cut.memory.rows.get? lone.id = some { lone with status := .running } := by
    decide +kernel
  have hfreed : (cut.memory.close 3).locks.get? lone.id = none := by decide +kernel
  have hsession : cut.session 0 = some 3 := by decide +kernel
  refine ⟨cut, _, p, hcut, hu, by decide +kernel, ?_, (hsessions 3 hopened).1, _, hmarked, ?_⟩
  · unfold drop
    rw [hsession]
    exact hfreed
  · rw [hrows]
    exact hrow

end Pool

end JobEngine
