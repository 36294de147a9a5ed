import JobEngine.Proofs.Redaction
import JobEngine.Proofs.Store.Locking

/-!
# A store behind a veil

A veil takes the secrets out of every job that has not ended.  A store behind it behaves as the
store itself, if whoever ends a job also says which parameters are kept.

* `Job.veil`, `Memory.veil`    what is seen through the veil;
* `exists_params`              what two jobs may differ in that look the same;
* `Changes.Guarded`            changes that say what is kept of a job they end;
* `overwrite_veil`, `insert_veil`, `write_veil`   the store does the same behind the veil;
* `perform_alike`              stores that look the same answer the same, and still do.
-/

namespace JobEngine

/-! ## jobs -/

/-- A job that has ended, as it is; another one without its secrets. -/
def Job.veil (j : Job) : Job :=
  if j.status.terminal then j else { j with params := j.params.redact }

namespace Job

variable {j j' : Job}

theorem veil_of_terminal (h : j.status.terminal) : j.veil = j := if_pos h

theorem veil_of_not_terminal (h : ¬ j.status.terminal) :
    j.veil = { j with params := j.params.redact } := if_neg h

/-- The veil hides parameters and nothing else. -/
theorem veil_congr {α : Type} (f : Job → α) (hf : ∀ j p, f { j with params := p } = f j)
    (j : Job) : f j.veil = f j := by
  unfold veil
  split
  · rfl
  · exact hf j _

@[simp] theorem veil_id (j : Job) : j.veil.id = j.id := veil_congr Job.id (fun _ _ => rfl) j

@[simp] theorem veil_status (j : Job) : j.veil.status = j.status :=
  veil_congr Job.status (fun _ _ => rfl) j

@[simp] theorem veil_tryMax (j : Job) : j.veil.tryMax = j.tryMax :=
  veil_congr Job.tryMax (fun _ _ => rfl) j

@[simp] theorem veil_veil (j : Job) : j.veil.veil = j.veil := by
  by_cases h : j.status.terminal
  · rw [veil_of_terminal h, veil_of_terminal h]
  · rw [veil_of_not_terminal h, veil_of_not_terminal (by exact h), Json.redact_redact]

/-- Jobs that look the same differ in parameters, which look the same, until they have ended. -/
theorem exists_params (h : j.veil = j'.veil) :
    ∃ p, j' = { j with params := p } ∧ p.redact = j.params.redact ∧
      (j.status.terminal → p = j.params) := by
  have hs : j.status = j'.status := by rw [← veil_status j, h, veil_status]
  by_cases ht : j.status.terminal
  · rw [veil_of_terminal ht, veil_of_terminal (hs ▸ ht)] at h
    exact ⟨j.params, h.symm, rfl, fun _ => rfl⟩
  · rw [veil_of_not_terminal ht, veil_of_not_terminal (hs ▸ ht)] at h
    refine ⟨j'.params, ?_, (congrArg Job.params h).symm, fun h => absurd h ht⟩
    exact (congrArg (fun x => { x with params := j'.params }) h).symm

theorem eq_of_veil_eq (h : j.veil = j'.veil) (ht : j.status.terminal) : j = j' := by
  obtain ⟨p, rfl, _, hp⟩ := exists_params h
  rw [hp ht]

end Job

/-! ## changes -/

namespace Changes

/-- Changes that end a job set its parameters. -/
def Guarded (c : Changes) : Prop := ∀ s, c.status = some s → s.terminal → c.params.isSome

variable {c : Changes}

theorem guarded_of_params (h : c.params.isSome) : c.Guarded := fun _ _ _ => h

theorem guarded_of_status {s : Status} (h : c.status = some s) (hs : s.terminal = false) :
    c.Guarded := by
  intro s' h' ht
  rw [← Option.some.inj (h.symm.trans h'), hs] at ht
  exact absurd ht Bool.false_ne_true

/-- What a change makes of a job looks the same, whatever the veil hid of the job. -/
theorem overwrite_veil (hc : c.Guarded) (j : Job) :
    (c.overwrite j.veil).veil = (c.overwrite j).veil := by
  by_cases hj : j.status.terminal
  · rw [Job.veil_of_terminal hj]
  rw [Job.veil_of_not_terminal hj]
  by_cases hnew : (c.overwrite j).status.terminal
  · -- the job ends here, so that its parameters are set
    obtain ⟨p, hp⟩ : ∃ p, c.params = some p := by
      refine Option.isSome_iff_exists.mp ?_
      cases hs : c.status with
      | none =>
        rw [show (c.overwrite j).status = c.status.getD j.status from rfl, hs] at hnew
        exact absurd hnew hj
      | some s =>
        rw [show (c.overwrite j).status = c.status.getD j.status from rfl, hs] at hnew
        exact hc s hs hnew
    unfold overwrite
    rw [hp]
    rfl
  · rw [Job.veil_of_not_terminal hnew, Job.veil_of_not_terminal (by exact hnew)]
    unfold overwrite
    cases c.params with
    | some p => rfl
    | none =>
      dsimp only [Option.getD_none]
      rw [Json.redact_redact]

theorem apply_veil (hc : c.Guarded) (j : Job) :
    (c.apply j.veil).map Job.veil = (c.apply j).map Job.veil := by
  have hover : c.Oversteps j.veil ↔ c.Oversteps j := by unfold Oversteps; rw [Job.veil_tryMax]
  rw [apply_eq, apply_eq, Job.veil_tryMax]
  by_cases h : c.Oversteps j
  · rw [if_pos h, if_pos (hover.mpr h)]
  · rw [if_neg h, if_neg (fun h' => h (hover.mp h'))]
    exact congrArg Except.ok (overwrite_veil hc j)

end Changes

/-! ## tables -/

namespace Table

variable {κ α β : Type} [DecidableEq κ] (f : α → β)

/-- Each value by what `f` makes of it. -/
def mapValues (t : Table κ α) : Table κ β := t.map fun e => (e.1, f e.2)

omit [DecidableEq κ] in
theorem values_mapValues (t : Table κ α) : values (mapValues f t) = (values t).map f := by
  unfold values mapValues
  rw [List.map_map, List.map_map]
  rfl

theorem get?_mapValues (key : κ) (t : Table κ α) :
    get? key (mapValues f t) = (get? key t).map f := by
  induction t with
  | nil => rfl
  | cons e t ih =>
    show (if e.1 = key then some (f e.2) else get? key (mapValues f t)) = _
    rw [ih, show get? key (e :: t) = if e.1 = key then some e.2 else get? key t from rfl]
    split <;> rfl

theorem contains_mapValues (t : Table κ α) (key : κ) :
    contains (mapValues f t) key = contains t key := by
  unfold contains
  rw [get?_mapValues, Option.isSome_map]

theorem mapValues_set (key : κ) (a : α) (t : Table κ α) :
    mapValues f (set key a t) = set key (f a) (mapValues f t) := by
  induction t with
  | nil => rfl
  | cons e t ih =>
    show mapValues f (if e.1 = key then _ else _) = if e.1 = key then _ else _
    split
    · rfl
    · exact congrArg (List.cons (e.1, f e.2)) ih

theorem mapValues_erase (key : κ) (t : Table κ α) :
    mapValues f (erase key t) = erase key (mapValues f t) := by
  unfold mapValues erase
  rw [List.filter_map]
  rfl

theorem mapValues_setAll (more t : Table κ α) :
    mapValues f (setAll more t) = setAll (mapValues f more) (mapValues f t) := by
  induction more generalizing t with
  | nil => rfl
  | cons e more ih =>
    show mapValues f (setAll more (set e.1 e.2 t)) = _
    rw [ih, mapValues_set]
    rfl

omit [DecidableEq κ] in
theorem mapValues_mapValues {f : α → α} (hf : ∀ a, f (f a) = f a) (t : Table κ α) :
    mapValues f (mapValues f t) = mapValues f t := by
  unfold mapValues
  rw [List.map_map]
  exact List.map_congr_left fun e _ => congrArg (Prod.mk e.1) (hf e.2)

end Table

/-! ## listings -/

def Page.veil (p : Page) : Page := { p with items := p.items.map Job.veil }

namespace Query

/-- A listing does not look behind the veil. -/
theorem select_veil (q : Query) (jobs : List Job) :
    q.select (jobs.map Job.veil) = (q.select jobs).veil := by
  have hadmits (j : Job) : q.filter.admits j.veil = q.filter.admits j :=
    j.veil_congr q.filter.admits fun _ _ => rfl
  have hprecedes (a b : Job) : a.veil.precedes b.veil = a.precedes b := by
    rw [Job.veil_congr (·.precedes b.veil) (fun _ _ => rfl) a]
    exact Job.veil_congr a.precedes (fun _ _ => rfl) b
  have hordered : q.ordered (jobs.map Job.veil) = (q.ordered jobs).map Job.veil := by
    have hfilter : (jobs.map Job.veil).filter q.filter.admits =
        (jobs.filter q.filter.admits).map Job.veil := by
      rw [List.filter_map]
      exact congrArg _ (List.filter_congr fun j _ => hadmits j)
    have hsort := List.map_mergeSort (r := Job.precedes) (s := Job.precedes) (f := Job.veil)
      (l := jobs.filter q.filter.admits) fun a _ b _ => (hprecedes a b).symm
    unfold ordered
    rw [hfilter, ← hsort]
    cases q.order with
    | ascending => rfl
    | descending => exact List.map_reverse.symm
  unfold select Page.veil
  simp only [hordered, List.length_map]
  unfold window
  cases q.limit <;> simp [List.map_drop, List.map_take]

end Query

/-! ## the store -/

def Session.veil (s : Session) : Session := { s with staged := s.staged.mapValues Job.veil }

def Memory.veil (m : Memory) : Memory :=
  { m with rows := m.rows.mapValues Job.veil, sessions := m.sessions.mapValues Session.veil }

/-- The answer of a store behind the veil. -/
def StoreCall.veil : (c : StoreCall) → c.Answer → c.Answer
  | .get _ _ _, a => a.map (Option.map Job.veil)
  | .read _, a => a.map (Option.map Job.veil)
  | .list _, a => a.map Page.veil
  | .begin, a | .update _ _ _, a | .commit _, a | .rollback _, a | .discard _, a | .write _ _, a
  | .insert _, a => a

/-- Who ends a job says what is kept of it. -/
def StoreCall.Guarded : StoreCall → Prop
  | .update _ _ c | .write _ c => c.Guarded
  | _ => True

namespace Memory

variable (m : Memory) (s : SessionId) (id : JobId)

theorem session_veil : m.veil.session s = (m.session s).veil := by
  unfold session veil
  rw [Table.get?_mapValues]
  cases m.sessions.get? s <;> rfl

theorem current_veil : m.veil.current s id = (m.current s id).map Job.veil := by
  have hstaged :
      (m.veil.session s).staged.get? id = ((m.session s).staged.get? id).map Job.veil := by
    rw [session_veil]
    exact Table.get?_mapValues ..
  unfold current
  rw [hstaged]
  cases (m.session s).staged.get? id with
  | some j => rfl
  | none => exact Table.get?_mapValues ..

theorem acquire_veil :
    m.veil.acquire s id = ((m.acquire s id).1, (m.acquire s id).2.veil) := by
  unfold acquire
  simp only [session_veil]
  show (if id ∈ (m.session s).held then _ else if !(m.rows.mapValues Job.veil).contains id then _
    else if m.locks.contains id then _ else _) = _
  rw [Table.contains_mapValues]
  split
  · rfl
  split
  · rfl
  split
  · rfl
  · unfold veil
    rw [Table.mapValues_set]
    rfl

theorem close_veil : m.veil.close s = (m.close s).veil := by
  unfold close
  rw [session_veil]
  unfold veil
  rw [Table.mapValues_erase]
  rfl

theorem commit_veil : m.veil.commit s = (m.commit s).veil := by
  unfold commit
  rw [← close_veil, session_veil]
  unfold veil
  dsimp only
  rw [Table.mapValues_setAll]
  rfl

theorem openSession_veil :
    m.veil.openSession = (m.openSession.1, m.openSession.2.veil) := by
  unfold openSession veil
  dsimp only
  rw [Table.mapValues_set]
  rfl

theorem veil_veil : m.veil.veil = m.veil := by
  have hsession (own : Session) : own.veil.veil = own.veil := by
    unfold Session.veil
    dsimp only
    rw [Table.mapValues_mapValues Job.veil_veil]
  unfold veil
  dsimp only
  rw [Table.mapValues_mapValues Job.veil_veil, Table.mapValues_mapValues hsession]

variable (j : Job)

theorem veil_stage : (m.stage s id j).veil = m.veil.stage s id j.veil := by
  unfold stage
  rw [session_veil]
  unfold veil Session.veil
  dsimp only
  rw [Table.mapValues_set, Table.mapValues_set]

theorem get_veil (lock : Bool) : m.veil.get s id lock =
    ((m.get s id lock).1.map (StoreCall.get s id lock).veil, (m.get s id lock).2.veil) := by
  unfold get
  rw [acquire_veil, current_veil]
  obtain ⟨claim, m₁⟩ := m.acquire s id
  cases lock with
  | false => rfl
  | true =>
    cases claim with
    | held => simp only [current_veil]; rfl
    | absent | busy => rfl

theorem update_veil {c : Changes} (hc : c.Guarded) :
    (m.veil.update s id c).1 = (m.update s id c).1 ∧
      (m.veil.update s id c).2.veil = (m.update s id c).2.veil := by
  unfold update
  rw [acquire_veil]
  obtain ⟨claim, m₁⟩ := m.acquire s id
  cases claim with
  | absent | busy => exact ⟨rfl, m₁.veil_veil⟩
  | held =>
    simp only [current_veil]
    cases m₁.current s id with
    | none => exact ⟨rfl, m₁.veil_veil⟩
    | some j =>
      have happly := Changes.apply_veil hc j
      dsimp only [Option.map_some]
      cases h : c.apply j with
      | error e =>
        rw [h] at happly
        cases h' : c.apply j.veil with
        | error e' =>
          rw [h'] at happly
          obtain rfl := Except.error.inj happly
          exact ⟨rfl, m₁.veil_veil⟩
        | ok j' =>
          rw [h'] at happly
          simp [Except.map] at happly
      | ok j₁ =>
        rw [h] at happly
        cases h' : c.apply j.veil with
        | error e' =>
          rw [h'] at happly
          simp [Except.map] at happly
        | ok j₂ =>
          rw [h'] at happly
          refine ⟨rfl, ?_⟩
          show (m₁.veil.stage s id j₂).veil = (m₁.stage s id j₁).veil
          rw [veil_stage, veil_stage, veil_veil, Except.ok.inj happly]

theorem insert_veil : m.veil.insert j.veil = ((m.insert j).1, (m.insert j).2.veil) := by
  unfold insert
  rw [Job.veil_id, show m.veil.rows.contains j.id = m.rows.contains j.id from
    Table.contains_mapValues ..]
  split
  · rfl
  · unfold veil
    rw [Table.mapValues_set]

theorem close_alike {m m' : Memory} (hm : m.veil = m'.veil) (s : SessionId) :
    (m.close s).veil = (m'.close s).veil := by
  rw [← close_veil, ← close_veil, hm]

theorem commit_alike {m m' : Memory} (hm : m.veil = m'.veil) (s : SessionId) :
    (m.commit s).veil = (m'.commit s).veil := by
  rw [← commit_veil, ← commit_veil, hm]

theorem write_veil {c : Changes} (hc : c.Guarded) :
    (m.veil.write id c).1 = (m.write id c).1 ∧
      (m.veil.write id c).2.veil = (m.write id c).2.veil := by
  unfold write
  rw [openSession_veil]
  obtain ⟨s, m₁⟩ := m.openSession
  obtain ⟨hanswer, hmem⟩ := m₁.update_veil s id hc
  dsimp only
  revert hanswer hmem
  obtain ⟨a, x⟩ := m₁.veil.update s id c
  obtain ⟨b, y⟩ := m₁.update s id c
  rintro rfl hmem
  match a with
  | none => exact ⟨rfl, m.veil_veil⟩
  | some (.ok n) => exact ⟨rfl, commit_alike hmem s⟩
  | some (.error e) => exact ⟨rfl, close_alike hmem s⟩

end Memory

/-- Answers with what is left of the store, which look the same. -/
def StoreCall.Same (c : StoreCall) (x y : Option c.Answer × Memory) : Prop :=
  x.1.map c.veil = y.1.map c.veil ∧ x.2.veil = y.2.veil

namespace Memory

variable {m m' : Memory}

theorem rows_alike (hm : m.veil = m'.veil) (id : JobId) :
    (m.rows.get? id).map Job.veil = (m'.rows.get? id).map Job.veil := by
  have hrows := congrArg (fun x => x.rows.get? id) hm
  dsimp only [veil] at hrows
  rwa [Table.get?_mapValues, Table.get?_mapValues] at hrows

/-- Stores that look the same have the same rows of jobs that have ended. -/
theorem row_of_veil_eq {id : JobId} {r : Job} (hm : m.veil = m'.veil)
    (hr : m.rows.get? id = some r) (hend : r.status.terminal) : m'.rows.get? id = some r := by
  have hrows := rows_alike hm id
  rw [hr] at hrows
  obtain ⟨r', hr', hveil⟩ := Option.map_eq_some_iff.mp hrows.symm
  rw [hr', Job.eq_of_veil_eq hveil.symm hend]

/-- New jobs that look the same find the same. -/
theorem insert_alike {j j' : Job} (hm : m.veil = m'.veil) (hj : j.veil = j'.veil) :
    (m.insert j).1 = (m'.insert j').1 ∧ (m.insert j).2.veil = (m'.insert j').2.veil := by
  have h := insert_veil m j
  rw [hm, hj, insert_veil] at h
  exact Prod.mk.inj h.symm

/-- Stores that look the same answer the same, and still look the same then. -/
theorem perform_alike {c : StoreCall} (hm : m.veil = m'.veil) (hc : c.Guarded) :
    c.Same (m.perform c) (m'.perform c) := by
  cases c with
  | begin =>
    obtain ⟨hs, hmem⟩ :=
      Prod.mk.inj ((openSession_veil m).symm.trans (hm ▸ openSession_veil m'))
    exact ⟨congrArg (fun s => some (Except.ok s)) hs, hmem⟩
  | get s id lock =>
    have h := (get_veil m s id lock).symm.trans (hm ▸ get_veil m' s id lock)
    exact Prod.mk.inj h
  | update s id c =>
    obtain ⟨hanswer, hmem⟩ := update_veil m s id hc
    obtain ⟨hanswer', hmem'⟩ := update_veil m' s id hc
    rw [hm] at hanswer hmem
    exact ⟨congrArg _ (hanswer.symm.trans hanswer'), hmem.symm.trans hmem'⟩
  | commit s => exact ⟨rfl, commit_alike hm s⟩
  | rollback s | discard s => exact ⟨rfl, close_alike hm s⟩
  | read id => exact ⟨congrArg (fun x => some (Except.ok x)) (rows_alike hm id), hm⟩
  | write id c =>
    obtain ⟨hanswer, hmem⟩ := write_veil m id hc
    obtain ⟨hanswer', hmem'⟩ := write_veil m' id hc
    rw [hm] at hanswer hmem
    exact ⟨congrArg _ (hanswer.symm.trans hanswer'), hmem.symm.trans hmem'⟩
  | list q =>
    have hpage (m : Memory) : (q.select m.rows.values).veil = q.select m.veil.rows.values := by
      rw [← Query.select_veil, ← Table.values_mapValues]
      rfl
    refine ⟨congrArg (fun x => some (Except.ok x)) ?_, hm⟩
    rw [hpage, hpage, hm]
  | insert j =>
    obtain ⟨hanswer, hmem⟩ := insert_alike hm (rfl : j.veil = j.veil)
    exact ⟨congrArg some hanswer, hmem⟩

end Memory

end JobEngine
