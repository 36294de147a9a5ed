import JobEngine.Proofs.Amid
import JobEngine.Proofs.Solo

/-!
# Jobs that are left alone

A unit that runs a job or puts it back reads it first, under its row lock.  What it may find there
makes it leave the job alone, and so does every failure up to the commit of its mark.  Then nothing
of it is seen: no event, no run of an action, no change of a record, no lock.

* `Marking`, `comes_claim`, `comes_putBack`   the transcripts of a unit inside its transaction;
* `Marked`           a transcript of a unit that went on: its mark is committed;
* `LeftAlone`        the transcripts of all others, with the result of each;
* `Unseen`           what is left of such a unit;
* `skipping_is_invisible`   a unit marks its job or is unseen.
-/

namespace JobEngine

open Program Run Memory Pool

/-! ## in the transaction -/

/-- What a locking read comes to. -/
def fetched (id : JobId) : Except StoreError (Option Job) → Except JobError (Option Job)
  | .ok (some j) => .ok (some j)
  | .ok none => .error (.notFound id)
  | .error e => if e.isContention then .ok none else .error (.store e)

/-- The transcripts of a unit that reads a job and marks it with `next` if its status is `want`;
whether it has marked it.  A missing row comes to `lost`. -/
inductive Marking (id : JobId) (want next : Status) (lost : Except JobError Bool) (ctx : Context) :
    List Heard → Except JobError Bool → Prop
  | missing {s : SessionId} : ctx.session = some s →
    Marking id want next lost ctx [⟨.store (.get s id true), .ok none⟩] lost
  | contended {s : SessionId} {e : StoreError} : ctx.session = some s → e.isContention →
    Marking id want next lost ctx [⟨.store (.get s id true), .error e⟩] (.ok false)
  | unread {s : SessionId} {e : StoreError} : ctx.session = some s → e.isContention = false →
    Marking id want next lost ctx [⟨.store (.get s id true), .error e⟩] (.error (.store e))
  | unwanted {s : SessionId} {j : Job} : ctx.session = some s → j.status ≠ want →
    Marking id want next lost ctx [⟨.store (.get s id true), .ok (some j)⟩] (.ok false)
  | marked {s : SessionId} {j : Job} {hs : List Heard} {r : Except JobError Unit} :
    ctx.session = some s → j.status = want → Updated ctx j.id { status := some next } hs r →
    Marking id want next lost ctx (⟨.store (.get s id true), .ok (some j)⟩ :: hs)
      (r.map fun _ => true)

section
variable {ctx : Context} {s : SessionId} {id : JobId} {j : Job}

theorem comes_fetch (hctx : ctx.session = some s) (id : JobId) :
    (ctx.fetch id).Comes fun hs r =>
      ∃ a, hs = [⟨.store (.get s id true), a⟩] ∧ r = fetched id a := by
  have hctx' : ctx.locking.session = some s := hctx
  unfold Context.fetch Context.load
  simp only [hctx']
  refine always_call (by simp) fun a => ?_
  match a with
  | .ok none => exact always_done ⟨_, rfl, .ok none, rfl, rfl⟩
  | .ok (some j) => exact always_done ⟨_, rfl, .ok (some j), rfl, rfl⟩
  | .error e =>
    show Always _ (if (ctx.locking.classify id e).isContention then _ else _)
    cases e with
    | rowLocked => exact .log (always_done ⟨_, rfl, .error .rowLocked, rfl, rfl⟩)
    | lockWaitTimeout => exact .log (always_done ⟨_, rfl, .error .lockWaitTimeout, rfl, rfl⟩)
    | _ => exact always_done ⟨_, rfl, .error _, rfl, rfl⟩

theorem comes_prepare (hj : j.status = .pending) :
    (ctx.prepare j).Comes fun hs r =>
      Updated ctx j.id { status := some .running } hs (r.map fun _ => ()) := by
  have hrun : j.status.become .running = .ok .running := by rw [hj]; rfl
  unfold Context.prepare
  rw [hrun]
  refine (ctx.comes_update j.id _).bind (fun hs e h => ⟨_, rfl, h⟩) fun hs u h => ?_
  refine always_rule ⟨_, rfl, ?_⟩
  rw [List.append_nil]
  exact h

theorem comes_reset (hj : j.status = .running) :
    (ctx.reset j).Comes (Updated ctx j.id { status := some .pending }) := by
  have hpend : j.status.become .pending = .ok .pending := by rw [hj]; rfl
  unfold Context.reset
  rw [hpend]
  exact ctx.comes_update j.id _

theorem comes_claim (hctx : ctx.session.isSome) :
    (ctx.claim id).Comes fun hs r =>
      Marking id .pending .running (.ok false) ctx hs (r.map Option.isSome) := by
  obtain ⟨s, hs⟩ := Option.isSome_iff_exists.mp hctx
  unfold Context.claim
  have hfetch := comes_fetch hs id
  refine (comes_lift hfetch).bind ?_ ?_
  · rintro _ e ⟨res, h, _⟩
    simp at h
  rintro _ r ⟨res, hr, a, rfl, rfl⟩
  obtain rfl := Except.ok.inj hr
  match a with
  | .ok none => exact always_log (always_done ⟨_, rfl, .missing hs⟩)
  | .ok (some j) =>
    show (if j.status.executable then _ else _ : Run (Option Job)).run.Always _
    by_cases hex : j.status.executable = true
    · have hj : j.status = .pending := by simpa [Status.executable] using hex
      rw [if_pos hex, map_eq_pure_bind]
      refine (comes_prepare hj).bind (fun hs' e h => ⟨_, rfl, .marked hs hj h⟩) fun hs' j' h => ?_
      refine always_done ⟨_, rfl, ?_⟩
      rw [List.append_nil]
      exact .marked hs hj h
    · have hj : j.status ≠ .pending := fun e => hex (by rw [e]; rfl)
      rw [if_neg hex]
      exact always_log (always_done ⟨_, rfl, .unwanted hs hj⟩)
  | .error e =>
    cases he : e.isContention with
    | true =>
      rw [show fetched id (.error e) = .ok none from if_pos he]
      exact always_done ⟨_, rfl, .contended hs he⟩
    | false =>
      rw [show fetched id (.error e) = .error (.store e) from if_neg (by simp [he])]
      exact always_done ⟨_, rfl, .unread hs he⟩

theorem comes_putBack (hctx : ctx.session.isSome) :
    (ctx.putBack id).Comes fun hs r =>
      ∃ b, Marking id .running .pending (.error (.notFound id)) ctx hs b ∧
        r = b.map fun _ => () := by
  obtain ⟨s, hs⟩ := Option.isSome_iff_exists.mp hctx
  unfold Context.putBack
  refine (comes_fetch hs id).bind ?_ ?_
  · rintro _ e ⟨a, rfl, h⟩
    refine ⟨_, rfl, .error e, ?_, rfl⟩
    match a with
    | .ok none =>
      obtain rfl := Except.error.inj h
      exact .missing hs
    | .ok (some j) => simp [fetched] at h
    | .error e' =>
      cases he : e'.isContention with
      | true => simp [fetched, he] at h
      | false =>
        simp only [fetched, he, Bool.false_eq_true, if_false] at h
        obtain rfl := Except.error.inj h
        exact .unread hs he
  · rintro _ found ⟨a, rfl, h⟩
    match a with
    | .ok none => simp [fetched] at h
    | .ok (some j) =>
      obtain rfl := Except.ok.inj h
      show (if j.status.resettable then _ else _ : Run Unit).run.Always _
      by_cases hre : j.status.resettable = true
      · have hj : j.status = .running := by simpa [Status.resettable] using hre
        rw [if_pos hre]
        refine (comes_reset hj).bind (fun hs' e h => ?_) fun hs' u h => ?_
        · exact ⟨_, rfl, _, .marked hs hj h, rfl⟩
        · refine .log (always_done ⟨_, rfl, .ok true, ?_, rfl⟩)
          rw [List.append_nil]
          exact .marked hs hj h
      · have hj : j.status ≠ .running := fun e => hre (by rw [e]; rfl)
        rw [if_neg hre]
        exact always_done ⟨_, rfl, .ok false, .unwanted hs hj, rfl⟩
    | .error e =>
      cases he : e.isContention with
      | true =>
        simp only [fetched, he, if_true] at h
        obtain rfl := Except.ok.inj h
        exact always_done ⟨_, rfl, .ok false, .contended hs he, rfl⟩
      | false => simp [fetched, he] at h

end

/-! ## the whole unit -/

/-- What is heard of a mark, up to its commit. -/
def marking (s : SessionId) (id : JobId) (j : Job) (next : Status) (now : Instant) (n : Nat) :
    List Heard :=
  [⟨.store .begin, .ok s⟩, ⟨.store (.get s id true), .ok (some j)⟩, ⟨.clock, now⟩,
    ⟨.store (.update s j.id { status := some next, updated := some now }), .ok (n + 1)⟩,
    ⟨.store (.commit s), .ok ()⟩]

/-- The unit found its job as it wants it, and its mark is committed. -/
def Marked (id : JobId) (want next : Status) (hs : List Heard) : Prop :=
  ∃ s j now n rest, j.status = want ∧ hs = marking s id j next now n ++ rest

/-- The answers to the locking read with which there is nothing to do. -/
inductive Idle (want : Status) (lost : Except JobError Unit) : Except StoreError (Option Job) → Prop
  | missing : lost = .ok () → Idle want lost (.ok none)
  | contended {e : StoreError} : e.isContention → Idle want lost (.error e)
  | unwanted {j : Job} : j.status ≠ want → Idle want lost (.ok (some j))

/-- The transcripts of a unit that leaves its job alone, with its result.  A missing row is nothing
to do, or the failure `lost`. -/
inductive LeftAlone (ctx : Context) (id : JobId) (want next : Status)
    (lost : Except JobError Unit) :
    List Heard → Except JobError Unit → Prop
  | refused (e : StoreError) :
    LeftAlone ctx id want next lost [⟨.store .begin, .error e⟩] (.error (.store e))
  | idle {s : SessionId} {a : Except StoreError (Option Job)} (b : Except StoreError Unit) :
    Idle want lost a →
    LeftAlone ctx id want next lost
      [⟨.store .begin, .ok s⟩, ⟨.store (.get s id true), a⟩, ⟨.store (.commit s), b⟩]
      (b.mapError .store)
  | missing {s : SessionId} {e : JobError} (b : Except StoreError Unit) : lost = .error e →
    LeftAlone ctx id want next lost
      [⟨.store .begin, .ok s⟩, ⟨.store (.get s id true), .ok none⟩, ⟨.store (.rollback s), b⟩]
      (.error e)
  | unread {s : SessionId} {e : StoreError} (b : Except StoreError Unit) :
    e.isContention = false →
    LeftAlone ctx id want next lost
      [⟨.store .begin, .ok s⟩, ⟨.store (.get s id true), .error e⟩, ⟨.store (.rollback s), b⟩]
      (.error (.store e))
  | unwritten {s : SessionId} {j : Job} (now : Instant) (e : StoreError)
    (b : Except StoreError Unit) : j.status = want →
    LeftAlone ctx id want next lost
      [⟨.store .begin, .ok s⟩, ⟨.store (.get s id true), .ok (some j)⟩, ⟨.clock, now⟩,
        ⟨.store (.update s j.id { status := some next, updated := some now }), .error e⟩,
        ⟨.store (.rollback s), b⟩]
      (.error (ctx.classify j.id e))
  | vanished {s : SessionId} {j : Job} (now : Instant) (b : Except StoreError Unit) :
    j.status = want →
    LeftAlone ctx id want next lost
      [⟨.store .begin, .ok s⟩, ⟨.store (.get s id true), .ok (some j)⟩, ⟨.clock, now⟩,
        ⟨.store (.update s j.id { status := some next, updated := some now }), .ok 0⟩,
        ⟨.store (.rollback s), b⟩]
      (.error (.notFound j.id))
  | uncommitted {s : SessionId} {j : Job} (now : Instant) (n : Nat) (e : StoreError) :
    j.status = want →
    LeftAlone ctx id want next lost
      [⟨.store .begin, .ok s⟩, ⟨.store (.get s id true), .ok (some j)⟩, ⟨.clock, now⟩,
        ⟨.store (.update s j.id { status := some next, updated := some now }), .ok (n + 1)⟩,
        ⟨.store (.commit s), .error e⟩]
      (.error (.store e))

section
variable {ctx : Context} {id : JobId} {want next : Status} {lost : Except JobError Unit}
  {hs : List Heard} {b : Except JobError Bool} {s : SessionId}

/-- A mark that did not come about is rolled back. -/
theorem Marking.leftAlone_of_error {e : JobError}
    (h : Marking id want next (lost.map fun _ => false) { ctx with session := some s } hs
      (.error e)) (r : Except StoreError Unit) :
    LeftAlone ctx id want next lost
      (⟨.store .begin, .ok s⟩ :: (hs ++ [⟨.store (.rollback s), r⟩])) (.error e) := by
  generalize hb : (Except.error e : Except JobError Bool) = b at h
  cases h with
  | missing hs =>
    obtain rfl := Option.some.inj hs.symm
    cases lost with
    | ok u => exact nomatch hb
    | error e' =>
      obtain rfl := Except.error.inj hb
      exact .missing r rfl
  | contended | unwanted => exact nomatch hb
  | unread hs he =>
    obtain rfl := Option.some.inj hs.symm
    obtain rfl := Except.error.inj hb
    exact .unread r he
  | marked hs hj h =>
    obtain rfl := Option.some.inj hs.symm
    obtain ⟨now, a, rfl, ⟨e', rfl, rfl⟩ | ⟨rfl, rfl⟩ | ⟨n, rfl, rfl⟩⟩ := h.joined hs
    · obtain rfl := Except.error.inj hb
      exact .unwritten now e' r hj
    · obtain rfl := Except.error.inj hb
      exact .vanished now r hj
    · exact nomatch hb

/-- What is committed is a mark, or nothing. -/
theorem Marking.of_ok {marked : Bool} (hctx : ctx.session = some s)
    (h : Marking id want next (lost.map fun _ => false) ctx hs (.ok marked)) :
    (marked = false ∧ ∃ a, hs = [⟨.store (.get s id true), a⟩] ∧ Idle want lost a) ∨
      (marked = true ∧ ∃ j now n, j.status = want ∧
        hs = [⟨.store (.get s id true), .ok (some j)⟩, ⟨.clock, now⟩,
          ⟨.store (.update s j.id { status := some next, updated := some now }),
            .ok (n + 1)⟩]) := by
  generalize hb : (Except.ok marked : Except JobError Bool) = b at h
  cases h with
  | missing hs =>
    obtain rfl := Option.some.inj (hs.symm.trans hctx)
    cases lost with
    | ok u => exact Or.inl ⟨Except.ok.inj hb, _, rfl, .missing rfl⟩
    | error e' => exact nomatch hb
  | contended hs he =>
    obtain rfl := Option.some.inj (hs.symm.trans hctx)
    exact Or.inl ⟨Except.ok.inj hb, _, rfl, .contended he⟩
  | unread => exact nomatch hb
  | unwanted hs hj =>
    obtain rfl := Option.some.inj (hs.symm.trans hctx)
    exact Or.inl ⟨Except.ok.inj hb, _, rfl, .unwanted hj⟩
  | @marked _ j _ _ hs hj h =>
    obtain rfl := Option.some.inj (hs.symm.trans hctx)
    obtain ⟨now, a, rfl, ⟨e', rfl, rfl⟩ | ⟨rfl, rfl⟩ | ⟨n, rfl, rfl⟩⟩ := h.joined hs
    · exact nomatch hb
    · exact nomatch hb
    · exact Or.inr ⟨Except.ok.inj hb, j, now, n, hj, rfl⟩

/-- A unit in a transaction of its own marks its job, or leaves it alone. -/
theorem Scoped.marked_or_leftAlone (lost : Except JobError Unit) (hctx : ctx.session = none)
    (h : Scoped ctx (Marking id want next (lost.map fun _ => false)) hs b) :
    (b = .ok true ∧ ∃ s j now n, j.status = want ∧ hs = marking s id j next now n) ∨
      (b ≠ .ok true ∧ LeftAlone ctx id want next lost hs (b.map fun _ => ())) := by
  cases h with
  | joined hs => exact nomatch hs.symm.trans hctx
  | refused e => exact Or.inr ⟨by simp, .refused e⟩
  | @committed s _ marked _ h =>
    rcases h.of_ok rfl with ⟨rfl, a, rfl, ha⟩ | ⟨rfl, j, now, n, hj, rfl⟩
    · exact Or.inr ⟨by simp, .idle (.ok ()) ha⟩
    · exact Or.inl ⟨rfl, s, j, now, n, hj, rfl⟩
  | @uncommitted s _ marked e _ h =>
    refine Or.inr ⟨by simp, ?_⟩
    rcases h.of_ok rfl with ⟨-, a, rfl, ha⟩ | ⟨-, j, now, n, hj, rfl⟩
    · exact .idle (.error e) ha
    · exact .uncommitted now n e hj
  | rolledBack r _ h => exact Or.inr ⟨by simp, h.leftAlone_of_error r⟩

theorem always_runJob {c : Controller} {deadline : Nat} (hctx : ctx.session = none) :
    (c.runJob ctx id deadline).run.Always fun hs r =>
      Marked id .pending .running hs ∨
        ∃ res, r = some res ∧ LeftAlone ctx id .pending .running (.ok ()) hs res := by
  have hclaim {hs : List Heard} {r : Except JobError (Option Job)}
      (h : Scoped ctx (fun ctx hs r =>
        Marking id .pending .running (.ok false) ctx hs (r.map Option.isSome)) hs r) :
      ((∃ j, r = .ok (some j)) ∧ Marked id .pending .running hs) ∨
        ((∀ j, r ≠ .ok (some j)) ∧
          LeftAlone ctx id .pending .running (.ok ()) hs (r.map fun _ => ())) := by
    obtain ⟨b, hb, hr⟩ : ∃ b, Scoped ctx (Marking id .pending .running (.ok false)) hs b ∧
        Alike (fun o b => b = o.isSome) r b := h.imp fun ctx' hs r h => ⟨_, h, by
      cases r with
      | error e => exact .error e
      | ok o => exact .ok rfl⟩
    rcases hb.marked_or_leftAlone (.ok ()) hctx with
      ⟨rfl, s, j, now, n, hj, rfl⟩ | ⟨hne, hleft⟩
    · cases hr with
      | @ok o _ ho =>
        obtain ⟨j', rfl⟩ := Option.isSome_iff_exists.mp ho.symm
        exact Or.inl ⟨⟨j', rfl⟩, s, j, now, n, [], hj, (List.append_nil _).symm⟩
    · cases hr with
      | error e => exact Or.inr ⟨by simp, hleft⟩
      | ok ho =>
        refine Or.inr ⟨fun j hj => hne ?_, hleft⟩
        rw [ho, Except.ok.inj hj]
        rfl
  unfold Controller.runJob Controller.runUnit
  refine always_footprint ((Context.comes_transaction fun ctx' h => comes_claim h).bind ?_ ?_)
  · intro hs e h
    rcases hclaim h with ⟨⟨j, hj⟩, _⟩ | ⟨_, h⟩
    · exact nomatch hj
    · exact Or.inr ⟨_, rfl, h⟩
  · intro hs found h
    rcases hclaim h with ⟨_, s, j, now, n, rest, hj, rfl⟩ | ⟨hne, h⟩
    · -- whatever follows, the mark is committed
      intro hs' r _
      exact Or.inl ⟨s, j, now, n, rest ++ hs', hj, List.append_assoc ..⟩
    · cases found with
      | some j => exact absurd rfl (hne j)
      | none =>
        refine always_done (Or.inr ⟨_, rfl, ?_⟩)
        rw [List.append_nil]
        exact h

theorem always_cleanJob (hctx : ctx.session = none) :
    (Run.cleanJob ctx id).run.Always fun hs r =>
      (r = some (.ok ()) ∧ ∃ s j now n, j.status = .running ∧
        hs = marking s id j .pending now n) ∨
        ∃ res, r = some res ∧
          LeftAlone ctx id .running .pending (.error (.notFound id)) hs res := by
  unfold Run.cleanJob
  refine always_footprint ?_
  refine (Context.comes_transaction fun ctx' h => comes_putBack h).mono fun hs r h => ?_
  obtain ⟨res, rfl, h⟩ := h
  obtain ⟨b, hb, hr⟩ : ∃ b,
      Scoped ctx (Marking id .running .pending (.error (.notFound id))) hs b ∧
        Alike (fun _ _ => True) res b := h.imp fun ctx' hs r ⟨b, hb, hr⟩ => ⟨b, hb, by
    subst hr
    cases b with
    | error e => exact .error e
    | ok _ => exact .ok trivial⟩
  rcases hb.marked_or_leftAlone (.error (.notFound id)) hctx with
    ⟨rfl, hmarked⟩ | ⟨_, hleft⟩
  · cases hr with
    | ok => exact Or.inl ⟨rfl, hmarked⟩
  · refine Or.inr ⟨_, rfl, ?_⟩
    cases hr with
    | error e => exact hleft
    | ok => exact hleft

end

/-! ## what is left of it -/

/-- No event is published and no action invoked, no answer changes a record, and of the sessions
that were opened none is left, nor any lock of theirs. -/
structure Unseen (ds : List Deal) (m' : Memory) : Prop where
  mute : Mute (Deal.told ds)
  rows : ∀ d ∈ ds, ∀ k, d.after.rows.get? k = d.before.rows.get? k
  closed (s : SessionId) : ⟨.store .begin, .ok s⟩ ∈ Deal.told ds →
    m'.isOpen s = false ∧ ∀ k, m'.locks.get? k ≠ some s

section
variable {ctx : Context} {id : JobId} {want next : Status} {lost res : Except JobError Unit}
  {hs : List Heard} {wait : Nat} {m m' : Memory} {ds : List Deal}

theorem LeftAlone.mute (h : LeftAlone ctx id want next lost hs res) : Mute hs := by
  cases h <;> exact ⟨rfl, rfl⟩

theorem LeftAlone.orderly (h : LeftAlone ctx id want next lost hs res) : Orderly none hs := by
  cases h with
  | refused => exact ⟨rfl, trivial⟩
  | idle | missing | unread => exact ⟨rfl, rfl, rfl, trivial⟩
  | unwritten | vanished | uncommitted => exact ⟨rfl, rfl, trivial, rfl, rfl, trivial⟩

theorem LeftAlone.length_le (h : LeftAlone ctx id want next lost hs res) : hs.length ≤ 5 := by
  cases h <;> simp

theorem LeftAlone.session (h : LeftAlone ctx id want next lost hs res) :
    hs.foldl sessionBehind none = none := by
  cases h <;> rfl

/-- Nothing is filed, or a session in which nothing is staged. -/
theorem LeftAlone.harmless (h : LeftAlone ctx id want next lost hs res) :
    hs.any Heard.atOnce = false ∧ (hs.any Heard.commits = false ∨ hs.any Heard.stages = false) := by
  cases h with
  | idle => exact ⟨rfl, Or.inr rfl⟩
  | _ => exact ⟨rfl, Or.inl rfl⟩

theorem LeftAlone.unseen (h : LeftAlone ctx id want next lost (Deal.told ds) res)
    (hm : m.Coherent) (hds : Deals wait none m ds m') : Unseen ds m' := by
  have hhosts : m.Hosts none := ⟨hm, fun hs => nomatch hs⟩
  refine ⟨h.mute, ?_, fun s hs => ?_⟩
  · obtain ⟨honce, hcommit | hstages⟩ := h.harmless
    · exact fun d hd k => by rw [hds.rows_rest hcommit honce d hd]
    · exact hds.blank_rest hhosts (fun s hs => nomatch hs) h.orderly hstages honce
  · rcases hds.over hhosts h.orderly (Or.inr (Or.inr hs)) with hsession | hgone
    · exact nomatch h.session.symm.trans hsession
    · exact hgone.left_nothing (hds.hosts hhosts h.orderly).coherent

end

/-- A unit whose transcript is that of `ds` marks its job, or is unseen and ends with a result.
Where the locking read finds nothing to do this result is a success, unless the store does not
commit, and where it finds no row it is `lost`. -/
structure Passes (ctx : Context) (id : JobId) (want next : Status) (lost : Except JobError Unit)
    (ds : List Deal) (r : Option (Except JobError Unit)) (m' : Memory) : Prop where
  cases : Marked id want next (Deal.told ds) ∨
    (∃ res, r = some res ∧ LeftAlone ctx id want next lost (Deal.told ds) res) ∧ Unseen ds m'
  idle {s : SessionId} {a : Except StoreError (Option Job)} {rest : List Heard} : Idle want lost a →
    Deal.told ds = ⟨.store .begin, .ok s⟩ :: ⟨.store (.get s id true), a⟩ :: rest →
    ∃ b : Except StoreError Unit, rest = [⟨.store (.commit s), b⟩] ∧ r = some (b.mapError .store) ∧
      Unseen ds m'
  missing {s : SessionId} {e : JobError} {rest : List Heard} : lost = .error e →
    Deal.told ds = ⟨.store .begin, .ok s⟩ :: ⟨.store (.get s id true), .ok none⟩ :: rest →
    r = some lost ∧ Unseen ds m'

section
variable {ctx : Context} {id : JobId} {want next : Status} {lost res : Except JobError Unit}
  {wait : Nat} {m m' : Memory} {ds : List Deal} {r : Option (Except JobError Unit)}

theorem Marked.of_read {s : SessionId} {a : Except StoreError (Option Job)} {rest : List Heard}
    (h : Marked id want next (⟨.store .begin, .ok s⟩ :: ⟨.store (.get s id true), a⟩ :: rest)) :
    ∃ j, a = .ok (some j) ∧ j.status = want := by
  obtain ⟨s', j, now, n, rest', hj, e⟩ := h
  cases e
  exact ⟨j, rfl, hj⟩

/-- What a unit that leaves its job alone has read, by the end that it came to. -/
theorem LeftAlone.of_read {s : SessionId} {a : Except StoreError (Option Job)} {rest : List Heard}
    (h : LeftAlone ctx id want next lost
      (⟨.store .begin, .ok s⟩ :: ⟨.store (.get s id true), a⟩ :: rest) res) :
    (Idle want lost a ∧ ∃ b : Except StoreError Unit, rest = [⟨.store (.commit s), b⟩] ∧
      res = b.mapError .store) ∨
    (a = .ok none ∧ res = lost ∧ ∃ e, lost = .error e) ∨
    (∃ e, a = .error e ∧ e.isContention = false) ∨ ∃ j, a = .ok (some j) ∧ j.status = want := by
  cases h with
  | idle b ha => exact Or.inl ⟨ha, b, rfl, rfl⟩
  | missing b hlost => exact Or.inr (Or.inl ⟨rfl, hlost.symm, _, hlost⟩)
  | unread b he => exact Or.inr (Or.inr (Or.inl ⟨_, rfl, he⟩))
  | unwritten now e b hj | vanished now b hj | uncommitted now n e hj =>
    exact Or.inr (Or.inr (Or.inr ⟨_, rfl, hj⟩))

theorem passes (hm : m.Coherent) (hds : Deals wait none m ds m')
    (h : Marked id want next (Deal.told ds) ∨
      ∃ res, r = some res ∧ LeftAlone ctx id want next lost (Deal.told ds) res) :
    Passes ctx id want next lost ds r m' where
  cases := h.imp_right fun ⟨res, hr, hleft⟩ => ⟨⟨res, hr, hleft⟩, hleft.unseen hm hds⟩
  idle {s a rest} ha htold := by
    rcases h with hmarked | ⟨res, rfl, hleft⟩
    · obtain ⟨j, rfl, hj⟩ := (htold ▸ hmarked).of_read
      cases ha with
      | unwanted hne => exact absurd hj hne
    · have hunseen := hleft.unseen hm hds
      rcases (htold ▸ hleft).of_read with
        ⟨-, b, hb, hres⟩ | ⟨rfl, -, e, hlost⟩ | ⟨e, rfl, he⟩ | ⟨j, rfl, hj⟩
      · exact ⟨b, hb, congrArg some hres, hunseen⟩
      · cases ha with
        | missing hlost' => exact nomatch hlost.symm.trans hlost'
      · cases ha with
        | contended he' => exact nomatch he.symm.trans he'
      · cases ha with
        | unwanted hne => exact absurd hj hne
  missing {s e rest} hlost htold := by
    rcases h with hmarked | ⟨res, rfl, hleft⟩
    · obtain ⟨j, hj, -⟩ := (htold ▸ hmarked).of_read
      exact nomatch hj
    · have hunseen := hleft.unseen hm hds
      rcases (htold ▸ hleft).of_read with
        ⟨ha, -⟩ | ⟨-, hres, -⟩ | ⟨e', ha, -⟩ | ⟨j, ha, -⟩
      · cases ha with
        | missing hlost' => exact nomatch hlost.symm.trans hlost'
      · exact ⟨congrArg some hres, hunseen⟩
      · exact nomatch ha
      · exact nomatch ha

/-- A unit that does not get to commit its mark is unseen, and ends with the result that its
transcript tells, whatever others do at the store.  A job that is missing, held by another or not
pending is no failure for one that would run it; for one that would put it back a missing job is. -/
theorem skipping_is_invisible (wait : Nat) (id : JobId) (hm : m.Coherent)
    (hctx : ctx.session = none) :
    (∀ (c : Controller) (deadline : Nat) (ds : List Deal) (r : Option (Except JobError Unit))
      (m' : Memory), (c.runJob ctx id deadline).run.Amid wait none m ds r m' →
        Passes ctx id .pending .running (.ok ()) ds r m') ∧
    (∀ (ds : List Deal) (r : Option (Except JobError Unit)) (m' : Memory),
      (Run.cleanJob ctx id).run.Amid wait none m ds r m' →
        Passes ctx id .running .pending (.error (.notFound id)) ds r m') := by
  constructor
  · intro c deadline ds r m' h
    exact passes hm h.deals (always_runJob hctx _ _ h.yields)
  · intro ds r m' h
    refine passes hm h.deals ((always_cleanJob hctx _ _ h.yields).imp_left ?_)
    rintro ⟨-, s, j, now, n, hj, htold⟩
    exact ⟨s, j, now, n, [], hj, htold.trans (List.append_nil _).symm⟩

end

/-- The row is held by another session when the unit would claim it. -/
theorem held_job_is_skipped : ∃ ds m',
    (Controller.runJob ⟨[lone.action]⟩ (.forJob "worker" lone.id) lone.id 1000).run.Amid 0 none
      heldStore ds (some (.ok ())) m' ∧ Unseen ds m' ∧ m'.locks.get? lone.id = some 1 := by
  obtain ⟨ds, m', hrun, htold, hlock⟩ : ∃ ds m',
      (Controller.runJob ⟨[lone.action]⟩ (.forJob "worker" lone.id) lone.id 1000).run.enact .epoch
        heldStore [.plain, .fault .rowLocked, .plain] = some (ds, some (.ok ()), m') ∧
      Deal.told ds = [⟨.store .begin, .ok 2⟩, ⟨.store (.get 2 lone.id true), .error .rowLocked⟩,
        ⟨.store (.commit 2), .ok ()⟩] ∧
      m'.locks.get? lone.id = some 1 := ⟨_, _, rfl, rfl, rfl⟩
  have hamid := Program.amid_of_enact 0 none hrun
  have hpasses := (skipping_is_invisible 0 lone.id heldStore_coherent rfl).1 _ _ _ _ _ hamid
  obtain ⟨b, -, -, hunseen⟩ := hpasses.idle (.contended rfl) htold
  exact ⟨ds, m', hamid, hunseen, hlock⟩

end JobEngine
