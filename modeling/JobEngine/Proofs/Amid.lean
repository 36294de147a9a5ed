import JobEngine.Proofs.Pool.CutOff
import JobEngine.Proofs.Pool.Schedule
import JobEngine.Proofs.Transcript

/-!
# A program among others

A program asks a store that others call as well, before it starts and between any two of its
questions.  They may hold any rows and file what they like; they only leave its session alone.

* `Deals`            the answers that a program gets, each with the store around it;
* `Program.Amid`     a run of a program among others, from its start to its end;
* `Orderly`          sessions are called between their start and their end;
* `Deals.over`       a session that was left is gone;
* `Deals.rows_rest`, `Deals.staged_rest`, `Deals.blank_rest`   records stay as they are while no
  change is made;
* `Program.enact`    a run without others, by what the surroundings decide.
-/

namespace JobEngine

open Memory Pool

/-- An answer, and the store around it. -/
structure Deal where
  heard : Heard
  before : Memory
  after : Memory

/-- What is answered to one that has the session `o` open, and the store behind it all. -/
inductive Deals (wait : Nat) : Option SessionId → Memory → List Deal → Memory → Prop
  | nil {o : Option SessionId} {m m' : Memory} : m.Drifts wait o m' → Deals wait o m [] m'
  | cons {o : Option SessionId} {m m' : Memory} {d : Deal} {ds : List Deal} (now : Instant) :
    m.Drifts wait o d.before → Answers d.before now d.heard.1 d.heard.2 d.after →
    Deals wait (sessionBehind o d.heard) d.after ds m' → Deals wait o m (d :: ds) m'

/-- What is heard, one answer after another. -/
abbrev Deal.told (ds : List Deal) : List Heard := ds.map heard

/-- A run of a program at a store that others use; `o` is the session that it has from before. -/
structure Program.Amid {α : Type} (wait : Nat) (o : Option SessionId) (m : Memory)
    (p : Program Engine α) (ds : List Deal) (r : Option α) (m' : Memory) : Prop where
  yields : p.Yields (Deal.told ds) r
  deals : Deals wait o m ds m'

/-! ## sessions -/

/-- A question that one may ask who has the session `o` open. -/
def EngineCall.Suits (o : Option SessionId) : EngineCall → Prop
  | .store .begin => o = none
  | .store (.get s _ _) | .store (.update s _ _) | .store (.commit s) | .store (.rollback s) =>
    o = some s
  | .store (.discard _) => False
  | _ => True

/-- Sessions are called between their start and their end, and are all ended. -/
def Orderly : Option SessionId → List Heard → Prop
  | _, [] => True
  | o, h :: hs => h.1.Suits o ∧ Orderly (sessionBehind o h) hs

theorem orderly_append {o : Option SessionId} {hs hs' : List Heard} :
    Orderly o (hs ++ hs') ↔ Orderly o hs ∧ Orderly (hs.foldl sessionBehind o) hs' := by
  induction hs generalizing o with
  | nil => exact ⟨fun h => ⟨trivial, h⟩, fun h => h.2⟩
  | cons h hs ih =>
    show _ ∧ Orderly _ (hs ++ hs') ↔ (_ ∧ _) ∧ _
    rw [ih, and_assoc]
    rfl

section
variable {m m' : Memory} {o : Option SessionId} {wait : Nat} {now : Instant} {c : EngineCall}
  {a : c.Answer} {ds ds' : List Deal} {d : Deal}

theorem EngineCall.Suits.turn (hc : c.Suits o) :
    SessionTurn o ⟨c, a⟩ (sessionBehind o ⟨c, a⟩) := by
  cases c with
  | store c =>
    cases c with
    | begin =>
      match a with
      | .ok s => exact .opens s hc
      | .error e => exact .stays fun n h => by injection h with _ h; simp at h
    | commit s | rollback s => exact .ends hc rfl
    | discard s => exact hc.elim
    | _ => exact .stays fun n h => by injection h with h; simp at h
  | _ => exact .stays fun n h => by injection h with h; simp at h

/-- The store is coherent, and the session is open in it. -/
structure Memory.Hosts (m : Memory) (o : Option SessionId) : Prop where
  coherent : m.Coherent
  opened {s : SessionId} : o = some s → ∃ own, m.sessions.get? s = some own

theorem Memory.Drifts.keeps (h : m.Drifts wait o m') (hm : m.Coherent) :
    m'.Coherent ∧ (∀ s, o = some s → Leaves s m m') ∧ ∀ s, m.Gone s → m'.Gone s := by
  obtain ⟨hc, hl⟩ := h.leaves hm
  refine ⟨hc, hl, ?_⟩
  induction h with
  | refl => exact fun _ h => h
  | step hbefore he _ ih =>
    obtain ⟨hc, hl⟩ := hbefore.leaves hm
    exact fun s hs => (ih hc hl s hs).next (he.effect hc)

theorem Memory.Drifts.hosts (h : m.Drifts wait o m') (hm : m.Hosts o) : m'.Hosts o := by
  obtain ⟨hc, hl, -⟩ := h.keeps hm.coherent
  refine ⟨hc, fun {s} hs => ?_⟩
  obtain ⟨own, hown⟩ := hm.opened hs
  exact ⟨own, (hl s hs own hown).1⟩

theorem EngineCall.Suits.admits {c : StoreCall} (hc : (EngineCall.store c).Suits o)
    (hm : m.Hosts o) : m.Admits c := by
  intro s hs
  refine isOpen_iff.mpr (hm.opened ?_)
  cases c with
  | get s' | update s' | commit s' | rollback s' => exact hc.trans hs
  | discard s' => exact hc.elim
  | _ => simp [StoreCall.session?] at hs

theorem Answers.effect_of_suits {c : StoreCall} {a : c.Answer}
    (ha : Answers m now (.store c) a m') (hm : m.Hosts o) (hc : (EngineCall.store c).Suits o) :
    Effect m ⟨c, a⟩ m' :=
  ha.effect hm.coherent (hc.admits hm) fun s e => by
    subst e
    exact hc

/-- Only the store changes the store. -/
theorem Answers.same (ha : Answers m now c a m') (hc : ∀ c', c ≠ .store c') : m' = m := by
  cases ha with
  | performed | refused => exact absurd rfl (hc _)
  | _ => rfl

/-- An answer leaves the session open, ends it, or opens one. -/
theorem Memory.Hosts.answers (hm : m.Hosts o) (hc : c.Suits o) (ha : Answers m now c a m') :
    m'.Hosts (sessionBehind o ⟨c, a⟩) ∧ (∀ s, m.Gone s → m'.Gone s) ∧
      ∀ s, o = some s → sessionBehind o ⟨c, a⟩ = some s ∨ m'.Gone s := by
  by_cases hstore : ∃ c', c = .store c'
  · obtain ⟨c, rfl⟩ := hstore
    have heffect := ha.effect_of_suits hm hc
    have hgone (s : SessionId) (hs : m.Gone s) : m'.Gone s := hs.next heffect
    have hkeeps {s : SessionId} (hs : o = some s) (hend : c.ends? ≠ some s) :
        ∃ own, m'.sessions.get? s = some own := by
      obtain ⟨own, hown⟩ := hm.opened hs
      by_cases hcall : c.session? = some s
      · obtain ⟨_, own', hown', _⟩ := heffect.own hown hcall hend
        exact ⟨own', hown'⟩
      · exact ⟨own, (heffect.leaves hcall own hown).1⟩
    generalize hturn : sessionBehind o ⟨.store c, a⟩ = o'
    have h := hc.turn (a := a)
    rw [hturn] at h
    cases h with
    | opens n ho =>
      refine ⟨⟨heffect.coherent, fun {s} hs => ?_⟩, hgone, fun s hs => nomatch ho.symm.trans hs⟩
      obtain rfl := Option.some.inj hs
      cases ha with
      | performed h =>
        obtain ⟨h₁, rfl⟩ := Prod.mk.inj h
        obtain rfl := Except.ok.inj (Option.some.inj h₁)
        exact ⟨_, get?_openSession m⟩
    | @ends _ _ n ho hend =>
      refine ⟨⟨heffect.coherent, fun hs => nomatch hs⟩, hgone, fun s hs => Or.inr ?_⟩
      obtain rfl := Option.some.inj (ho.symm.trans hs)
      obtain ⟨own, hown⟩ := hm.opened ho
      exact heffect.gone hm.coherent hown hend
    | stays hnot =>
      refine ⟨⟨heffect.coherent, fun {s} hs => hkeeps hs fun hend => ?_⟩, hgone,
        fun s hs => Or.inl hs⟩
      have hnone : sessionBehind o ⟨.store c, a⟩ = none := by
        cases c with
        | commit | rollback => rfl
        | discard => exact hc.elim
        | _ => simp [StoreCall.ends?] at hend
      rw [hturn, hs] at hnone
      simp at hnone
  · have hsame : m' = m := ha.same fun c' e => hstore ⟨c', e⟩
    have hb : sessionBehind o ⟨c, a⟩ = o := by
      cases c with
      | store c => exact absurd ⟨c, rfl⟩ hstore
      | _ => rfl
    rw [hsame, hb]
    exact ⟨hm, fun _ h => h, fun _ hs => Or.inl hs⟩

/-! ## many answers -/

theorem Deals.append (h : Deals wait o m (ds ++ ds') m') :
    ∃ m₁, Deals wait o m ds m₁ ∧
      Deals wait ((Deal.told ds).foldl sessionBehind o) m₁ ds' m' := by
  induction ds generalizing o m with
  | nil => exact ⟨m, .nil .refl, h⟩
  | cons d ds ih =>
    cases h with
    | cons now hdrift ha hrest =>
      obtain ⟨m₁, hds, hds'⟩ := ih hrest
      exact ⟨m₁, .cons now hdrift ha hds, hds'⟩

/-- The first answer of a transcript that is known. -/
theorem Deals.next {x : Heard} {hs : List Heard} (h : Deals wait o m ds m')
    (htold : Deal.told ds = x :: hs) :
    ∃ b a ds' now, ds = ⟨x, b, a⟩ :: ds' ∧ m.Drifts wait o b ∧ Answers b now x.1 x.2 a ∧
      Deals wait (sessionBehind o x) a ds' m' ∧ Deal.told ds' = hs := by
  obtain ⟨⟨_, b, a⟩, ds', rfl, rfl, hrest⟩ := List.map_eq_cons_iff.mp htold
  cases h with
  | cons now hdrift ha hds => exact ⟨b, a, ds', now, rfl, hdrift, ha, hds, hrest⟩

theorem Deals.hosts (h : Deals wait o m ds m') (hm : m.Hosts o) (ho : Orderly o (Deal.told ds)) :
    m'.Hosts ((Deal.told ds).foldl sessionBehind o) := by
  induction h with
  | nil hdrift => exact hdrift.hosts hm
  | cons now hdrift ha _ ih => exact ih ((hdrift.hosts hm).answers ho.1 ha).1 ho.2

/-- Each question was asked of a store that hosts the session, and suits it. -/
theorem Deals.at (h : Deals wait o m ds m') (hm : m.Hosts o) (ho : Orderly o (Deal.told ds))
    (hd : d ∈ ds) : ∃ o' now, d.before.Hosts o' ∧ d.heard.1.Suits o' ∧
      Answers d.before now d.heard.1 d.heard.2 d.after := by
  induction h with
  | nil => exact nomatch hd
  | cons now hdrift ha _ ih =>
    have hbefore := hdrift.hosts hm
    rcases List.mem_cons.mp hd with rfl | hd
    · exact ⟨_, now, hbefore, ho.1, ha⟩
    · exact ih (hbefore.answers ho.1 ha).1 ho.2 hd

/-- A session that was there or is opened is the one that is left, or is gone. -/
theorem Deals.over {s : SessionId} (h : Deals wait o m ds m') (hm : m.Hosts o)
    (ho : Orderly o (Deal.told ds))
    (hs : o = some s ∨ m.Gone s ∨ ⟨.store .begin, .ok s⟩ ∈ Deal.told ds) :
    (Deal.told ds).foldl sessionBehind o = some s ∨ m'.Gone s := by
  induction h with
  | nil hdrift =>
    rcases hs with hs | hs | hs
    · exact Or.inl hs
    · exact Or.inr ((hdrift.keeps hm.coherent).2.2 s hs)
    · simp at hs
  | @cons o m _ d ds now hdrift ha _ ih =>
    obtain ⟨hhosts, hgone, hown⟩ := (hdrift.hosts hm).answers ho.1 ha
    refine ih hhosts ho.2 ?_
    rcases hs with hs | hs | hs
    · exact (hown s hs).imp_right Or.inl
    · exact Or.inr (Or.inl (hgone s ((hdrift.keeps hm.coherent).2.2 s hs)))
    · rcases List.mem_cons.mp hs with hs | hs
      · exact Or.inl (by rw [← hs]; rfl)
      · exact Or.inr (Or.inr hs)

/-! ## records -/

namespace Heard

/-- A change of a record was staged. -/
def stages : Heard → Bool
  | ⟨.store (.update _ _ _), .ok (_ + 1)⟩ => true
  | _ => false

/-- A row may be changed without a session. -/
def atOnce : Heard → Bool
  | ⟨.store (.write _ _), _⟩ | ⟨.store (.insert _), _⟩ => true
  | _ => false

/-- What was staged is filed. -/
def commits : Heard → Bool
  | ⟨.store (.commit _), .ok ()⟩ => true
  | _ => false

end Heard

/-- No record is changed: the rows stay, and so does what the session `o` has staged. -/
structure Deal.Rests (o : Option SessionId) (d : Deal) : Prop where
  rows (k : JobId) : d.after.rows.get? k = d.before.rows.get? k
  staged {s : SessionId} : o = some s → ∀ k,
    (d.after.session s).staged.get? k = (d.before.session s).staged.get? k

theorem Heard.stages_of_changes {c : StoreCall} {a : c.Answer} {s : SessionId} {id : JobId}
    {x : Changes} (h : Event.changes s id ⟨c, a⟩ = some x) : Heard.stages ⟨.store c, a⟩ = true := by
  unfold Event.changes at h
  split at h
  · next heq =>
    cases heq
    rfl
  · simp at h

theorem Answers.rows_rest (ha : Answers m now c a m') (hcommit : Heard.commits ⟨c, a⟩ = false)
    (honce : Heard.atOnce ⟨c, a⟩ = false) : m'.rows = m.rows := by
  cases ha with
  | @performed c a m' hp =>
    have hrows := perform_rows m c
    rw [hp] at hrows
    rcases hrows with hrows | ⟨s, rfl⟩ | ⟨id, changes, rfl⟩ | ⟨j, rfl⟩
    · exact hrows
    · obtain ⟨h₁, _⟩ := Prod.mk.inj hp
      obtain rfl := Option.some.inj h₁
      exact nomatch hcommit
    · exact nomatch honce
    · exact nomatch honce
  | refused c e => cases c <;> rfl
  | _ => rfl

/-- What the session has staged stays while it goes on and no change is staged. -/
theorem Answers.staged_rest {s : SessionId} (ha : Answers m now c a m') (hm : m.Hosts (some s))
    (hc : c.Suits (some s)) (hgoes : sessionBehind (some s) ⟨c, a⟩ = some s)
    (h : Heard.stages ⟨c, a⟩ = false) (k : JobId) :
    (m'.session s).staged.get? k = (m.session s).staged.get? k := by
  by_cases hstore : ∃ c', c = .store c'
  · obtain ⟨c, rfl⟩ := hstore
    have heffect := ha.effect_of_suits hm hc
    obtain ⟨own, hown⟩ := hm.opened rfl
    rw [session_of_get? hown]
    by_cases hcall : c.session? = some s
    · have hend : c.ends? ≠ some s := by
        intro hend
        cases c with
        | commit | rollback => simp [sessionBehind] at hgoes
        | discard => exact hc
        | _ => simp [StoreCall.ends?] at hend
      obtain ⟨_, own', hown', _, hstage⟩ := heffect.own hown hcall hend
      rw [session_of_get? hown']
      cases hstage k with
      | stays _ hsame => exact hsame
      | stages hchanges =>
        rw [Heard.stages_of_changes hchanges] at h
        simp at h
    · rw [session_of_get? (heffect.leaves hcall own hown).1]
  · rw [ha.same fun c' e => hstore ⟨c', e⟩]

theorem Memory.Drifts.session_eq {s : SessionId} (h : m.Drifts wait (some s) m')
    (hm : m.Hosts (some s)) : m'.session s = m.session s := by
  obtain ⟨own, hown⟩ := hm.opened rfl
  rw [session_of_get? hown, session_of_get? ((h.keeps hm.coherent).2.1 s rfl own hown).1]

theorem Deals.rows_rest (h : Deals wait o m ds m')
    (hcommit : (Deal.told ds).any Heard.commits = false)
    (honce : (Deal.told ds).any Heard.atOnce = false) : ∀ d ∈ ds, d.after.rows = d.before.rows := by
  induction h with
  | nil => exact fun d hd => nomatch hd
  | cons now _ ha _ ih =>
    obtain ⟨hcommit, hcommits⟩ := Bool.or_eq_false_iff.mp hcommit
    obtain ⟨honce, honces⟩ := Bool.or_eq_false_iff.mp honce
    intro x hx
    rcases List.mem_cons.mp hx with rfl | hx
    · exact ha.rows_rest hcommit honce
    · exact ih hcommits honces x hx

/-- Inside a session that goes on, nothing is changed as long as no change is staged. -/
theorem Deals.staged_rest {s : SessionId} (h : Deals wait (some s) m ds m')
    (hm : m.Hosts (some s)) (ho : Orderly (some s) (Deal.told ds))
    (hgoes : ∀ x ∈ Deal.told ds, sessionBehind (some s) x = some s)
    (hstages : (Deal.told ds).any Heard.stages = false) :
    ∀ d ∈ ds, ∀ k, (d.after.session s).staged.get? k = (d.before.session s).staged.get? k := by
  induction ds generalizing m with
  | nil => exact fun d hd => nomatch hd
  | cons d ds ih =>
    obtain ⟨hstage, hstages⟩ := Bool.or_eq_false_iff.mp hstages
    cases h with
    | cons now hdrift ha hrest =>
      have hbefore := hdrift.hosts hm
      have hnext := (hbefore.answers ho.1 ha).1
      have ho' := ho.2
      have hgo := hgoes d.heard List.mem_cons_self
      rw [hgo] at hrest hnext ho'
      intro x hx
      rcases List.mem_cons.mp hx with rfl | hx
      · exact ha.staged_rest hbefore ho.1 hgo hstage
      · exact ih hrest hnext ho' (fun y hy => hgoes y (List.mem_cons_of_mem _ hy)) hstages x hx

/-- The session has staged nothing. -/
def Memory.Blank (m : Memory) (o : Option SessionId) : Prop :=
  ∀ s, o = some s → ∀ k, (m.session s).staged.get? k = none

theorem Memory.Blank.drifts (h : m.Blank o) (hm : m.Hosts o) (hdrift : m.Drifts wait o m') :
    m'.Blank o := by
  rintro s rfl k
  rw [hdrift.session_eq hm]
  exact h s rfl k

theorem Memory.Blank.answers (h : m.Blank o) (hm : m.Hosts o) (hc : c.Suits o)
    (ha : Answers m now c a m') (hstages : Heard.stages ⟨c, a⟩ = false) :
    m'.Blank (sessionBehind o ⟨c, a⟩) := by
  intro s hs k
  rcases sessionBehind_eq_some hs with hbegin | ho
  · obtain ⟨rfl, hbegin⟩ := Sigma.mk.inj hbegin
    obtain rfl := eq_of_heq hbegin
    cases ha with
    | performed hp =>
      obtain ⟨h₁, rfl⟩ := Prod.mk.inj hp
      obtain rfl := Except.ok.inj (Option.some.inj h₁)
      show (m.openSession.2.session m.nextSession).staged.get? k = none
      rw [session_of_get? (get?_openSession m)]
      rfl
  · subst ho
    rw [ha.staged_rest hm hc hs hstages]
    exact h s rfl k

/-- A session in which nothing is staged files nothing. -/
theorem Answers.blank_rest (ha : Answers m now c a m') (h : m.Blank o) (hm : m.Hosts o)
    (hc : c.Suits o) (honce : Heard.atOnce ⟨c, a⟩ = false) (k : JobId) :
    m'.rows.get? k = m.rows.get? k := by
  by_cases hcommit : ∃ s, c = .store (.commit s)
  · obtain ⟨s, rfl⟩ := hcommit
    obtain ⟨own, hown⟩ := hm.opened hc
    have hnone := h s hc k
    rw [session_of_get? hown] at hnone
    cases ha with
    | performed hp =>
      obtain ⟨_, rfl⟩ := Prod.mk.inj hp
      show (m.commit s).rows.get? k = _
      rw [get?_commit hm.coherent hown, hnone]
      rfl
    | refused => rfl
  · have hnot : Heard.commits ⟨c, a⟩ = false := by
      unfold Heard.commits
      split
      · next heq =>
        cases heq
        exact absurd ⟨_, rfl⟩ hcommit
      · rfl
    rw [ha.rows_rest hnot honce]

/-- As long as no change is made, every record stays as it is. -/
theorem Deals.blank_rest (h : Deals wait o m ds m') (hm : m.Hosts o) (hblank : m.Blank o)
    (ho : Orderly o (Deal.told ds)) (hstages : (Deal.told ds).any Heard.stages = false)
    (honce : (Deal.told ds).any Heard.atOnce = false) :
    ∀ d ∈ ds, ∀ k, d.after.rows.get? k = d.before.rows.get? k := by
  induction h with
  | nil => exact fun d hd => nomatch hd
  | @cons _ _ _ d ds now hdrift ha _ ih =>
    obtain ⟨hstage, hstages⟩ := Bool.or_eq_false_iff.mp hstages
    obtain ⟨honce, honces⟩ := Bool.or_eq_false_iff.mp honce
    have hbefore := hdrift.hosts hm
    have hblank' := hblank.drifts hm hdrift
    intro x hx
    rcases List.mem_cons.mp hx with rfl | hx
    · exact ha.blank_rest hblank' hbefore ho.1 honce
    · exact ih (hbefore.answers ho.1 ha).1 (hblank'.answers hbefore ho.1 ha hstage) ho.2 hstages
        honces x hx

end

/-! ## a run to look at -/

section
variable {α : Type}

/-- The run of a program at a store that nobody else calls, by what the surroundings decide; nothing
if they are asked something else. -/
def Program.enact (now : Instant) :
    Program Engine α → Memory → List Luck → Option (List Deal × Option α × Memory)
  | done a, m, _ => some ([], some a, m)
  | crash, m, _ => some ([], none, m)
  | call (.log _) k, m, ls => (k ()).enact now m ls
  | call _ _, _, [] => none
  | call c k, m, l :: ls =>
    (l.reply m now c).bind fun x =>
      ((k x.1).enact now x.2 ls).map fun y => (⟨⟨c, x.1⟩, m, x.2⟩ :: y.1, y.2)

theorem Program.amid_of_enact {now : Instant} {p : Program Engine α} {m m' : Memory}
    {ls : List Luck} {ds : List Deal} {r : Option α} (wait : Nat) (o : Option SessionId)
    (h : p.enact now m ls = some (ds, r, m')) : p.Amid wait o m ds r m' := by
  induction p generalizing o m ls ds with
  | done a =>
    cases h
    exact ⟨.done a, .nil .refl⟩
  | crash =>
    cases h
    exact ⟨.crash, .nil .refl⟩
  | call c k ih =>
    by_cases hlog : ∃ l, c = .log l
    · obtain ⟨l, rfl⟩ := hlog
      obtain ⟨hyields, hdeals⟩ := ih () o h
      exact ⟨.log hyields, hdeals⟩
    · have hcall : ∀ l, c ≠ .log l := fun l e => hlog ⟨l, e⟩
      cases ls with
      | nil =>
        cases c with
        | log l => exact absurd rfl (hcall l)
        | _ => exact nomatch h
      | cons l ls =>
        have h : ((l.reply m now c).bind fun x =>
            ((k x.1).enact now x.2 ls).map fun y => (⟨⟨c, x.1⟩, m, x.2⟩ :: y.1, y.2)) =
              some (ds, r, m') := by
          cases c with
          | log l => exact absurd rfl (hcall l)
          | _ => exact h
        obtain ⟨⟨a, m₁⟩, ha, hrest⟩ := Option.bind_eq_some_iff.mp h
        obtain ⟨⟨ds', r', m₂⟩, hk, heq⟩ := Option.map_eq_some_iff.mp hrest
        cases heq
        obtain ⟨hyields, hdeals⟩ := ih a _ hk
        exact ⟨.call hcall hyields, .cons now .refl (answers_iff_reply.mpr ⟨l, ha⟩) hdeals⟩

end

end JobEngine
