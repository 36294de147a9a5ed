import JobEngine.Proofs.Amid
import JobEngine.Proofs.Visit

/-!
# An attempt changes its record once or not at all

An attempt at a job announces events, runs the action and records how that ended, in the transaction
that is open or in one of its own.  The change of the record is the last thing that can fail.

* `Heard.aside`      the questions around the change;
* `Executed`         the transcripts of an attempt;
* `Deal.Writes`      an answer with which one record is changed, and nothing else;
* `Updated.rests`, `Updated.writes`   a change that fails, and one that does not;
* `execute_all_or_nothing`   what an attempt leaves behind, by its result.
-/

namespace JobEngine

open Program Run Memory Pool

/-! ## transcripts -/

namespace Heard

/-- Not a question of the store, nor an announcement of a start that fails. -/
def aside : Heard → Bool
  | ⟨.store _, _⟩ => false
  | ⟨.publish (.started _ _ _), .error _⟩ => false
  | _ => true

/-- The session stays what it is. -/
theorem aside_turn {h : Heard} (ha : h.aside = true) (o : Option SessionId) :
    h.1.Suits o ∧ sessionBehind o h = o := by
  obtain ⟨c, a⟩ := h
  cases c with
  | store c => exact nomatch ha
  | _ => exact ⟨trivial, rfl⟩

theorem aside_not_store {h : Heard} (ha : h.aside = true) (c : StoreCall) : h.1 ≠ .store c := by
  obtain ⟨c', a⟩ := h
  rintro rfl
  exact nomatch ha

end Heard

section
variable {o : Option SessionId} {hs hs' : List Heard}

theorem orderly_of_aside (h : hs.all Heard.aside = true) :
    Orderly o hs ∧ hs.foldl sessionBehind o = o := by
  induction hs with
  | nil => exact ⟨trivial, rfl⟩
  | cons x hs ih =>
    obtain ⟨hx, hhs⟩ := Bool.and_eq_true_iff.mp h
    obtain ⟨hsuits, hsame⟩ := Heard.aside_turn hx o
    obtain ⟨hrest, hfold⟩ := ih hhs
    refine ⟨⟨hsuits, ?_⟩, ?_⟩
    · rw [hsame]
      exact hrest
    · rw [List.foldl_cons, hsame]
      exact hfold

end

/-- The transcripts of an attempt at `v` whose start was announced, or that has no start: unless it
ends before the change of its record, that change is its end. -/
inductive Concluded (ctx : Context) (v : Job) : List Heard → Option (Except JobError Outcome) → Prop
  | early {hs : List Heard} {r : Option (Except JobError Outcome)} : hs.all Heard.aside = true →
    (∀ out, r ≠ some (.ok out)) → Concluded ctx v hs r
  | recorded {hs hs' : List Heard} {how : Except ActionError Json} {c : Changes}
    {res : Except JobError Unit} {r : Except JobError Outcome} : hs.all Heard.aside = true →
    (∀ now, Settles v how { c with updated := some now }) → Updated ctx v.id c hs' res →
    Alike (fun _ _ => True) res r → Concluded ctx v (hs ++ hs') (some r)

section
variable {ctx : Context} {v : Job} {hs hs' : List Heard} {r : Option (Except JobError Outcome)}

theorem Concluded.append (h : Concluded ctx v hs r) (hall : hs'.all Heard.aside = true) :
    Concluded ctx v (hs' ++ hs) r := by
  cases h with
  | early hrest hr =>
    refine .early ?_ hr
    rw [List.all_append, hall, hrest]
    rfl
  | recorded hrest hset hup halike =>
    rw [← List.append_assoc]
    refine .recorded ?_ hset hup halike
    rw [List.all_append, hall, hrest]
    rfl

theorem Concluded.behind {x : Heard} (hx : x.aside = true) (h : Concluded ctx v hs r) :
    Concluded ctx v (x :: hs) r := by
  have hall : [x].all Heard.aside = true := Bool.and_eq_true_iff.mpr ⟨hx, rfl⟩
  exact h.append hall

theorem Concluded.of_updated {how : Except ActionError Json} {c : Changes}
    {res : Except JobError Unit} {r : Except JobError Outcome}
    (hset : ∀ now, Settles v how { c with updated := some now })
    (h : Updated ctx v.id c hs res) (halike : Alike (fun _ _ => True) res r) :
    Concluded ctx v hs (some r) := by
  have hnone : ([] : List Heard).all Heard.aside = true := rfl
  exact .recorded hnone hset h halike

/-- The change of the record, with the outcome that goes with it. -/
theorem always_record {how : Except ActionError Json} {c : Changes} {out : Outcome} {l : LogLine}
    (hset : ∀ now, Settles v how { c with updated := some now }) :
    (ctx.update v.id c >>= fun _ => (liftM (Run.log l) : Run Unit) >>= fun _ =>
      pure out).run.Always (Concluded ctx v) := by
  refine (ctx.comes_update v.id c).bind (fun hs e h => ?_) fun hs u h => ?_
  · exact .of_updated hset h (.error e)
  · refine always_log (always_done ?_)
    rw [List.append_nil]
    exact .of_updated hset h (.ok trivial)

theorem always_recordSuccess {result : Json} (hrun : v.status = .running) :
    (ctx.recordSuccess v result).run.Always (Concluded ctx v) := by
  have hfin : v.status.become .finished = .ok .finished := by rw [hrun]; rfl
  unfold Context.recordSuccess
  rw [hfin]
  refine always_publish (fun e => .early rfl (by simp)) ?_
  exact (always_record fun now => .finished result now).mono fun hs r h => h.behind rfl

theorem always_recordFailure {e : ActionError} (hrun : v.status = .running) :
    (ctx.recordFailure v e.message).run.Always (Concluded ctx v) := by
  have hpend : v.status.become .pending = .ok .pending := by rw [hrun]; rfl
  have herr : v.status.become .error = .ok .error := by rw [hrun]; rfl
  unfold Context.recordFailure
  rw [hpend, herr]
  refine always_log (always_publish (fun e' => .early rfl (by simp)) ?_)
  refine Always.mono (S := Concluded ctx v) (always_clock fun now => ?_)
    fun hs r h => h.behind rfl
  refine Always.mono (S := Concluded ctx v) ?_ fun hs r h => h.behind rfl
  match hd : v.onFailure now with
  | none => exact always_crash (.early rfl (by simp))
  | some (.exhausted n) => exact always_record fun now => .exhausted e now hd
  | some (.retry n runAt) => exact always_record fun now => .retry e now hd

/-- The action is run at most once, and comes to an end. -/
theorem comes_invoke (c : Controller) (deadline : Nat) :
    Run.Comes (fun hs r => ∃ how, r = .ok how ∧ hs.all Heard.aside = true)
      (ExceptT.lift (c.invoke v deadline)) := by
  refine always_lift ?_
  unfold Controller.invoke
  split
  · refine always_call (by simp) fun a => ?_
    match a with
    | some how => exact always_done ⟨_, rfl, _, rfl, rfl⟩
    | none => exact always_done ⟨_, rfl, _, rfl, rfl⟩
  · exact always_done ⟨_, rfl, _, rfl, rfl⟩

/-- An attempt ends with the announcement of its start, if that fails. -/
theorem always_execute (c : Controller) (deadline : Nat) :
    (c.execute ctx v deadline).run.Always fun hs r =>
      (∃ e, hs = [⟨.publish (.ofStart v), .error e⟩] ∧ r = some (.error (.notify e))) ∨
        Concluded ctx v hs r := by
  unfold Controller.execute
  by_cases hrun : v.status = .running
  · have hfin : v.status.become .finished = .ok .finished := by rw [hrun]; rfl
    rw [hfin]
    refine always_log (always_publish (fun e => Or.inl ⟨e, rfl, rfl⟩) ?_)
    refine Always.mono (S := Concluded ctx v) ?_ fun hs r h => Or.inr (h.behind rfl)
    show (ExceptT.lift (c.invoke v deadline) >>= _ : Run Outcome).run.Always (Concluded ctx v)
    refine (comes_invoke c deadline).bind ?_ ?_
    · rintro hs e ⟨how, h, _⟩
      cases h
    · rintro hs how ⟨how', h, hall⟩
      obtain rfl := Except.ok.inj h
      cases how with
      | ok result => exact (always_recordSuccess hrun).mono fun _ _ h => h.append hall
      | error e => exact (always_recordFailure hrun).mono fun _ _ h => h.append hall
  · have hno : ∃ e, v.status.become .finished = .error e := by
      cases hs : v.status with
      | running => exact absurd hs hrun
      | pending | finished | error => exact ⟨_, rfl⟩
    obtain ⟨e, he⟩ := hno
    rw [he]
    exact always_done (Or.inr (.early rfl (by simp)))

end

/-! ## the change of the record -/

/-- The answer changes the record of `id`, and no other: its row, or what the session `o` has staged
of it. -/
inductive Deal.Writes (o : Option SessionId) (id : JobId) (r j : Job) (d : Deal) : Prop
  | files {s : SessionId} : o = none → d.heard = ⟨.store (.commit s), .ok ()⟩ →
    d.before.rows.get? id = some r →
    (∀ k, d.after.rows.get? k = if id = k then some j else d.before.rows.get? k) →
    Writes o id r j d
  | stages {s : SessionId} {c : Changes} : o = some s →
    d.heard = ⟨.store (.update s id c), .ok 1⟩ → d.before.current s id = some r →
    (∀ k, d.after.rows.get? k = d.before.rows.get? k) →
    (∀ k, (d.after.session s).staged.get? k =
      if id = k then some j else (d.before.session s).staged.get? k) →
    Writes o id r j d

section
variable {ctx : Context} {id : JobId} {c : Changes} {hs : List Heard} {wait : Nat}
  {m m' : Memory} {ds : List Deal} {s : SessionId} {o : Option SessionId} {now : Instant}

/-- What a change does to the session that it is staged in. -/
theorem Answers.stages {n : Nat} {a : (StoreCall.update s id c).Answer} (hm : m.Hosts (some s))
    (ha : Answers m now (.store (.update s id c)) a m') (hok : a = .ok (n + 1)) :
    ∃ row own held, m.sessions.get? s = some own ∧ m.current s id = some row ∧
      ¬ c.Oversteps row ∧ n = 0 ∧ m'.rows = m.rows ∧ id ∈ held ∧
      m'.sessions.get? s = some ⟨own.staged.set id (c.overwrite row), held⟩ := by
  obtain ⟨own, hown⟩ := hm.opened rfl
  cases ha with
  | refused => exact nomatch hok
  | performed h =>
    obtain ⟨-, hrows, -, ⟨hzero, -⟩ | ⟨held, row, hrow, hid, hcase⟩⟩ :=
      update_cases hm.coherent hown h
    · exact nomatch hok.symm.trans hzero
    · rcases hcase with ⟨e, -, herr, -⟩ | ⟨j', hj', hone, hs'⟩
      · exact nomatch hok.symm.trans herr
      · obtain ⟨hover, rfl⟩ := Changes.apply_eq_ok_iff.mp hj'
        obtain rfl : n = 0 := Nat.succ.inj (Except.ok.inj (hok.symm.trans hone))
        exact ⟨row, own, held, hown, (current_eq hown id).trans hrow, hover, rfl, hrows, hid, hs'⟩

/-- A store does not refuse a change for what it says of the tries if these are within bounds. -/
theorem update_not_refused {row : Job} (hm : m.Hosts (some s)) (hrow : m.current s id = some row)
    (hover : ¬ c.Oversteps row) (e : StoreError) :
    (m.perform (.update s id c)).1 ≠ some (.error e) := by
  obtain ⟨own, hown⟩ := hm.opened rfl
  intro h
  have hcall : m.update s id c = (some (.error e), (m.update s id c).2) := Prod.ext h rfl
  obtain ⟨-, -, -, ⟨hzero, -⟩ | ⟨held, j, hj, -, hcase⟩⟩ := update_cases hm.coherent hown hcall
  · exact nomatch hzero
  · rcases hcase with ⟨e', happly, -⟩ | ⟨_, _, hone, _⟩
    · rw [current_eq hown, hj] at hrow
      obtain rfl := Option.some.inj hrow
      rw [Changes.apply_eq, if_neg hover] at happly
      exact nomatch happly
    · exact nomatch hone

/-- The questions of a change leave the context as it was. -/
theorem Updated.orderly {r : Except JobError Unit} (h : Updated ctx id c hs r) :
    Orderly ctx.session hs ∧ hs.foldl sessionBehind ctx.session = ctx.session := by
  obtain ⟨now, hs, rfl, h⟩ := h
  cases h with
  | joined hs h =>
    cases h with
    | failed _ hs | absent hs | changed _ hs =>
      rw [hs]
      exact ⟨⟨trivial, rfl, trivial⟩, rfl⟩
  | refused _ hnone =>
    rw [hnone]
    exact ⟨⟨trivial, rfl, trivial⟩, rfl⟩
  | committed hnone h | uncommitted _ hnone h =>
    rw [hnone]
    cases h with
    | changed _ hs =>
      obtain rfl := Option.some.inj hs
      exact ⟨⟨trivial, rfl, rfl, rfl, trivial⟩, rfl⟩
  | rolledBack _ hnone h =>
    rw [hnone]
    cases h with
    | failed _ hs | absent hs =>
      obtain rfl := Option.some.inj hs
      exact ⟨⟨trivial, rfl, rfl, rfl, trivial⟩, rfl⟩

/-- All that a change asks. -/
theorem Updated.calls {r : Except JobError Unit} (h : Updated ctx id c hs r) {x : Heard}
    (hx : x ∈ hs) : x.1 = .clock ∨ (x.1 = .store .begin ∧ ctx.session = none) ∨
      (∃ s now, x.1 = .store (.update s id { c with updated := some now })) ∨
      ∃ s, x.1 = .store (.commit s) ∨ x.1 = .store (.rollback s) := by
  obtain ⟨now, hs, rfl, h⟩ := h
  have hbody {ctx' : Context} {hs : List Heard} {r : Except JobError Unit}
      (h : Written id { c with updated := some now } ctx' hs r) (hx : x ∈ hs) :
      ∃ s now, x.1 = .store (.update s id { c with updated := some now }) := by
    cases h with
    | failed | absent | changed =>
      obtain rfl := List.mem_singleton.mp hx
      exact ⟨_, now, rfl⟩
  rcases List.mem_cons.mp hx with rfl | hx
  · exact Or.inl rfl
  cases h with
  | joined _ h => exact Or.inr (Or.inr (Or.inl (hbody h hx)))
  | refused _ hnone =>
    obtain rfl := List.mem_singleton.mp hx
    exact Or.inr (Or.inl ⟨rfl, hnone⟩)
  | committed hnone h | uncommitted _ hnone h | rolledBack _ hnone h =>
    rcases List.mem_cons.mp hx with rfl | hx
    · exact Or.inr (Or.inl ⟨rfl, hnone⟩)
    rcases List.mem_append.mp hx with hx | hx
    · exact Or.inr (Or.inr (Or.inl (hbody h hx)))
    · obtain rfl := List.mem_singleton.mp hx
      first
        | exact Or.inr (Or.inr (Or.inr ⟨_, Or.inl rfl⟩))
        | exact Or.inr (Or.inr (Or.inr ⟨_, Or.inr rfl⟩))

/-- A change that fails changes nothing. -/
theorem Updated.rests {e : JobError} (h : Updated ctx id c (Deal.told ds) (.error e))
    (hm : m.Hosts ctx.session) (hds : Deals wait ctx.session m ds m') :
    ∀ d ∈ ds, d.Rests ctx.session := by
  obtain ⟨ho, -⟩ := h.orderly
  have hquiet : (Deal.told ds).any Heard.atOnce = false ∧
      (Deal.told ds).any Heard.commits = false ∧
      ∀ s, ctx.session = some s → (Deal.told ds).any Heard.stages = false ∧
        ∀ x ∈ Deal.told ds, sessionBehind (some s) x = some s := by
    obtain ⟨now, hs, htold, h⟩ := h
    rw [htold]
    have hfree (hnone : ctx.session = none) {P : SessionId → Prop} (s : SessionId)
        (hs : ctx.session = some s) : P s := nomatch hnone.symm.trans hs
    cases h with
    | joined hs h =>
      refine ⟨by cases h <;> rfl, by cases h <;> rfl, fun s' hs' => ⟨by cases h <;> rfl, ?_⟩⟩
      obtain rfl := Option.some.inj (hs.symm.trans hs')
      intro x hx
      cases h with
      | failed _ _ | absent _ =>
        simp only [List.mem_cons, List.not_mem_nil, or_false] at hx
        obtain rfl | rfl := hx <;> rfl
    | refused _ hnone => exact ⟨rfl, rfl, hfree hnone⟩
    | uncommitted _ hnone h => exact ⟨by cases h; rfl, by cases h; rfl, hfree hnone⟩
    | rolledBack _ hnone h => exact ⟨by cases h <;> rfl, by cases h <;> rfl, hfree hnone⟩
  obtain ⟨honce, hcommit, hstage⟩ := hquiet
  intro d hd
  refine ⟨fun k => by rw [hds.rows_rest hcommit honce d hd], fun {s} hs => ?_⟩
  obtain ⟨hstages, hgoes⟩ := hstage s hs
  rw [hs] at hds hm ho
  exact hds.staged_rest hm ho hgoes hstages d hd

/-- Outside of a transaction there are only rows to change. -/
theorem Deal.rests_outside {d : Deal} (h : d.after.rows = d.before.rows) : d.Rests none :=
  ⟨fun k => by rw [h], fun hs => nomatch hs⟩

theorem Deal.rests_of_same {d : Deal} (h : d.after = d.before) : d.Rests o :=
  ⟨fun k => by rw [h], fun _ k => by rw [h]⟩

/-- A change in the transaction that is open is staged there. -/
theorem Deals.writes_joined {n : Nat} (hm : m.Hosts (some s))
    (hds : Deals wait (some s) m ds m')
    (htold : Deal.told ds = [⟨.clock, now⟩, ⟨.store (.update s id c), .ok (n + 1)⟩]) :
    ∃ ds' d row, ds = ds' ++ [d] ∧ (∀ x ∈ ds', x.Rests (some s)) ∧ ¬ c.Oversteps row ∧
      d.Writes (some s) id row (c.overwrite row) := by
  obtain ⟨b₁, a₁, ds₁, _, rfl, hdrift₁, hclock, hds₁, htold₁⟩ := hds.next htold
  obtain ⟨b₂, a₂, ds₂, _, rfl, hdrift₂, hupdate, -, htold₂⟩ := hds₁.next htold₁
  obtain rfl := List.map_eq_nil_iff.mp htold₂
  have hb₂ : b₂.Hosts (some s) :=
    hdrift₂.hosts ((hdrift₁.hosts hm).answers (c := .clock) trivial hclock).1
  obtain ⟨row, own, held, hown, hrow, hover, rfl, hrows, -, hs⟩ := hupdate.stages hb₂ rfl
  refine ⟨[_], _, row, rfl, ?_, hover, .stages rfl rfl hrow (fun k => by rw [hrows]) fun k => ?_⟩
  · intro x hx
    obtain rfl := List.mem_singleton.mp hx
    exact Deal.rests_of_same (hclock.same (by simp))
  · show (a₂.session s).staged.get? k = if id = k then _ else (b₂.session s).staged.get? k
    rw [session_of_get? hs, session_of_get? hown]
    exact Table.get?_set ..

/-- A change in a transaction of its own is filed by the commit. -/
theorem Deals.writes_own {n : Nat} (hm : m.Hosts none) (hds : Deals wait none m ds m')
    (htold : Deal.told ds = [⟨.clock, now⟩, ⟨.store .begin, .ok s⟩,
      ⟨.store (.update s id c), .ok (n + 1)⟩, ⟨.store (.commit s), .ok ()⟩]) :
    ∃ ds' d row, ds = ds' ++ [d] ∧ (∀ x ∈ ds', x.Rests none) ∧ ¬ c.Oversteps row ∧
      d.Writes none id row (c.overwrite row) := by
  obtain ⟨b₁, a₁, ds₁, _, rfl, hdrift₁, hclock, hds₁, htold₁⟩ := hds.next htold
  obtain ⟨b₂, a₂, ds₂, _, rfl, hdrift₂, hbegin, hds₂, htold₂⟩ := hds₁.next htold₁
  obtain ⟨b₃, a₃, ds₃, _, rfl, hdrift₃, hupdate, hds₃, htold₃⟩ := hds₂.next htold₂
  obtain ⟨b₄, a₄, ds₄, _, rfl, hdrift₄, hcommit, -, htold₄⟩ := hds₃.next htold₃
  obtain rfl := List.map_eq_nil_iff.mp htold₄
  have hb₂ : b₂.Hosts none :=
    hdrift₂.hosts ((hdrift₁.hosts hm).answers (c := .clock) trivial hclock).1
  have ha₂ : a₂.Hosts (some s) := (hb₂.answers (c := .store .begin) rfl hbegin).1
  have hb₃ : b₃.Hosts (some s) := hdrift₃.hosts ha₂
  have ha₃ : a₃.Hosts (some s) := (hb₃.answers (c := .store (.update s id c)) rfl hupdate).1
  have hb₄ : b₄.Coherent := (hdrift₄.hosts ha₃).coherent
  -- the session is new, and others leave it so
  have hnew : a₂.sessions.get? s = some {} := by
    cases hbegin with
    | performed h =>
      obtain ⟨h₁, rfl⟩ := Prod.mk.inj h
      obtain rfl := Except.ok.inj (Option.some.inj h₁)
      exact get?_openSession b₂
  have hempty := ((hdrift₃.keeps ha₂.coherent).2.1 s rfl _ hnew).1
  obtain ⟨row, own, held, hown, hrow, hover, -, hrows, hid, hs⟩ := hupdate.stages hb₃ rfl
  obtain rfl := Option.some.inj (hempty.symm.trans hown)
  have hfiled : b₃.rows.get? id = some row := (current_eq hempty id).symm.trans hrow
  -- others leave alone what the session has staged, and the row that it holds
  obtain ⟨hs', hheld⟩ := (hdrift₄.keeps ha₃.coherent).2.1 s rfl _ hs
  have hbefore : b₄.rows.get? id = some row := by
    rw [hheld id hid, hrows]
    exact hfiled
  refine ⟨[_, _, _], _, row, rfl, ?_, hover, .files rfl rfl hbefore fun k => ?_⟩
  · intro x hx
    simp only [List.mem_cons, List.not_mem_nil, or_false] at hx
    obtain rfl | rfl | rfl := hx
    · exact Deal.rests_outside (hclock.rows_rest rfl rfl)
    · exact Deal.rests_outside (hbegin.rows_rest rfl rfl)
    · exact Deal.rests_outside hrows
  · cases hcommit with
    | performed h =>
      obtain ⟨-, rfl⟩ := Prod.mk.inj h
      show (b₄.commit s).rows.get? k = _
      rw [get?_commit hb₄ hs', Table.get?_set]
      split <;> rfl

theorem Updated.writes (h : Updated ctx id c (Deal.told ds) (.ok ())) (hm : m.Hosts ctx.session)
    (hds : Deals wait ctx.session m ds m') :
    ∃ now ds' d row, ds = ds' ++ [d] ∧ (∀ x ∈ ds', x.Rests ctx.session) ∧
      ¬ Changes.Oversteps { c with updated := some now } row ∧
      d.Writes ctx.session id row (Changes.overwrite { c with updated := some now } row) := by
  obtain ⟨now, hs, htold, h⟩ := h
  cases h with
  | joined hs h =>
    cases h with
    | changed n hs =>
      rw [hs] at hm hds ⊢
      exact ⟨now, hds.writes_joined hm htold⟩
  | committed hnone h =>
    cases h with
    | changed n hs =>
      obtain rfl := Option.some.inj hs
      rw [hnone] at hm hds ⊢
      exact ⟨now, hds.writes_own hm htold⟩

end

/-! ## the whole attempt -/

section
variable {ctx : Context} {v : Job} {hs : List Heard} {wait : Nat} {m m' : Memory} {ds : List Deal}
  {r : Option (Except JobError Outcome)} {o : Option SessionId} {c : Controller} {deadline : Nat}

/-- Who is not at the store changes nothing there. -/
theorem Deals.rests_aside (h : Deals wait o m ds m')
    (hall : (Deal.told ds).all Heard.aside = true) :
    ∀ d ∈ ds, ∀ o', d.Rests o' := by
  induction h with
  | nil => exact fun d hd => nomatch hd
  | cons now _ ha _ ih =>
    obtain ⟨haside, hrest⟩ := Bool.and_eq_true_iff.mp hall
    intro x hx
    rcases List.mem_cons.mp hx with rfl | hx
    · exact fun o' => Deal.rests_of_same (ha.same (Heard.aside_not_store haside))
    · exact ih hrest x hx

theorem Concluded.orderly (h : Concluded ctx v hs r) :
    Orderly ctx.session hs ∧ hs.foldl sessionBehind ctx.session = ctx.session := by
  cases h with
  | early hall _ => exact orderly_of_aside hall
  | recorded hall _ hup _ =>
    obtain ⟨hpre, hfold⟩ := orderly_of_aside (o := ctx.session) hall
    obtain ⟨hrest, hend⟩ := hup.orderly
    rw [orderly_append, List.foldl_append, hfold]
    exact ⟨⟨hpre, hrest⟩, hend⟩

/-- The answers before the change of the record, and those of the change. -/
theorem Deals.split {hs' : List Heard} (h : Deals wait o m ds m') (hm : m.Hosts o)
    (htold : Deal.told ds = hs ++ hs') (hall : hs.all Heard.aside = true) :
    ∃ ds₁ ds₂ m₁, ds = ds₁ ++ ds₂ ∧ Deal.told ds₂ = hs' ∧ (∀ d ∈ ds₁, d.Rests o) ∧ m₁.Hosts o ∧
      Deals wait o m₁ ds₂ m' := by
  obtain ⟨ds₁, ds₂, rfl, rfl, htold₂⟩ := List.map_eq_append_iff.mp htold
  obtain ⟨m₁, h₁, h₂⟩ := h.append
  obtain ⟨hpre, hfold⟩ := orderly_of_aside (o := o) hall
  have hm₁ := h₁.hosts hm hpre
  rw [hfold] at h₂ hm₁
  exact ⟨ds₁, ds₂, m₁, rfl, htold₂, fun d hd => h₁.rests_aside hall d hd o, hm₁, h₂⟩

/-- What an attempt leaves behind. -/
structure Attempted (ctx : Context) (v : Job) (ds : List Deal)
    (r : Option (Except JobError Outcome)) (m' : Memory) : Prop where
  /-- The context is in the session that it was in, which is open, or in none. -/
  session : (Deal.told ds).foldl sessionBehind ctx.session = ctx.session
  opened (s : SessionId) : ctx.session = some s → m'.isOpen s
  /-- Of the sessions that it opened none is left, nor any lock of theirs. -/
  closed (s : SessionId) : ⟨.store .begin, .ok s⟩ ∈ Deal.told ds →
    m'.isOpen s = false ∧ ∀ k, m'.locks.get? k ≠ some s
  /-- If it does not succeed, no answer has changed a record. -/
  nothing : (∀ out, r ≠ some (.ok out)) → ∀ d ∈ ds, d.Rests ctx.session
  /-- If it succeeds, the last answer has changed the job's record, and nothing else was changed. -/
  all (out : Outcome) : r = some (.ok out) → ∃ ds' d how changes row, ds = ds' ++ [d] ∧
    (∀ x ∈ ds', x.Rests ctx.session) ∧ Settles v how changes ∧
    d.Writes ctx.session v.id row (changes.overwrite row)
  /-- An announcement of the start that fails is the end: the action is not run. -/
  announced (e : NotifyError) : ⟨.publish (.ofStart v), .error e⟩ ∈ Deal.told ds →
    Deal.told ds = [⟨.publish (.ofStart v), .error e⟩] ∧ r = some (.error (.notify e))
  /-- A change is not refused for the number of tries if the row allows as many as `v`. -/
  within (d : Deal) (s : SessionId) (id : JobId) (changes : Changes) (row : Job) : d ∈ ds →
    d.heard.1 = .store (.update s id changes) → d.before.current s id = some row →
    row.tryMax = v.tryMax → ∀ e, (d.before.perform (.update s id changes)).1 ≠ some (.error e)

/-- All that an attempt asks of a store. -/
theorem Concluded.calls (h : Concluded ctx v hs r) {x : Heard} (hx : x ∈ hs)
    (haside : x.aside = false) : (x.1 = .store .begin ∧ ctx.session = none) ∨
      (∃ s how changes, x.1 = .store (.update s v.id changes) ∧ Settles v how changes) ∨
      ∃ s, x.1 = .store (.commit s) ∨ x.1 = .store (.rollback s) := by
  cases h with
  | early hall _ => exact nomatch haside.symm.trans (List.all_eq_true.mp hall x hx)
  | @recorded _ _ how _ _ _ hall hset hup _ =>
    rcases List.mem_append.mp hx with hx | hx
    · exact nomatch haside.symm.trans (List.all_eq_true.mp hall x hx)
    · rcases hup.calls hx with hclock | hbegin | ⟨s, now, hupdate⟩ | hend
      · obtain ⟨c, a⟩ := x
        obtain rfl : c = .clock := hclock
        exact nomatch haside
      · exact Or.inl hbegin
      · exact Or.inr (Or.inl ⟨s, how, _, hupdate, hset now⟩)
      · exact Or.inr (Or.inr hend)

theorem Concluded.nothing (h : Concluded ctx v (Deal.told ds) r) (hm : m.Hosts ctx.session)
    (hds : Deals wait ctx.session m ds m') (hr : ∀ out, r ≠ some (.ok out)) :
    ∀ d ∈ ds, d.Rests ctx.session := by
  generalize htold : Deal.told ds = told at h
  cases h with
  | early hall _ => exact fun d hd => hds.rests_aside (htold ▸ hall) d hd _
  | recorded hall _ hup halike =>
    obtain ⟨ds₁, ds₂, m₁, rfl, rfl, hrest, hm₁, hds₂⟩ := hds.split hm htold hall
    cases halike with
    | ok => exact absurd rfl (hr _)
    | error e =>
      intro d hd
      rcases List.mem_append.mp hd with hd | hd
      · exact hrest d hd
      · exact hup.rests hm₁ hds₂ d hd

theorem Concluded.all {out : Outcome} (h : Concluded ctx v (Deal.told ds) (some (.ok out)))
    (hm : m.Hosts ctx.session) (hds : Deals wait ctx.session m ds m') :
    ∃ ds' d how changes row, ds = ds' ++ [d] ∧ (∀ x ∈ ds', x.Rests ctx.session) ∧
      Settles v how changes ∧ d.Writes ctx.session v.id row (changes.overwrite row) := by
  generalize htold : Deal.told ds = told at h
  cases h with
  | early _ hr => exact absurd rfl (hr out)
  | @recorded _ _ how c _ _ hall hset hup halike =>
    obtain ⟨ds₁, ds₂, m₁, rfl, rfl, hrest, hm₁, hds₂⟩ := hds.split hm htold hall
    cases halike with
    | ok =>
      obtain ⟨now, ds', d, row, rfl, hrest', -, hwrites⟩ := hup.writes hm₁ hds₂
      refine ⟨ds₁ ++ ds', d, how, _, row, (List.append_assoc ..).symm, ?_, hset now, hwrites⟩
      intro x hx
      rcases List.mem_append.mp hx with hx | hx
      · exact hrest x hx
      · exact hrest' x hx

theorem attempted_of_unannounced {e : NotifyError} (hm : m.Hosts ctx.session)
    (hds : Deals wait ctx.session m ds m')
    (htold : Deal.told ds = [⟨.publish (.ofStart v), .error e⟩]) :
    Attempted ctx v ds (some (.error (.notify e))) m' := by
  obtain ⟨b, a, ds', now, rfl, hdrift, ha, hrest, htold'⟩ := hds.next htold
  obtain rfl := List.map_eq_nil_iff.mp htold'
  have hsame : a = b := ha.same (by simp)
  have hhosts : m'.Hosts ctx.session := hds.hosts hm ⟨trivial, trivial⟩
  refine ⟨rfl, fun s hs => isOpen_iff.mpr (hhosts.opened hs), fun s hs => ?_, fun _ d hd => ?_,
    fun out h => ?_, fun e' he' => ?_, fun d s id changes row hd hcall => ?_⟩
  · exact nomatch List.mem_singleton.mp hs
  · obtain rfl := List.mem_singleton.mp hd
    exact Deal.rests_of_same hsame
  · exact nomatch h
  · cases List.mem_singleton.mp he'
    exact ⟨rfl, rfl⟩
  · obtain rfl := List.mem_singleton.mp hd
    exact nomatch hcall

theorem Concluded.attempted (h : Concluded ctx v (Deal.told ds) r) (hm : m.Hosts ctx.session)
    (hds : Deals wait ctx.session m ds m') : Attempted ctx v ds r m' := by
  obtain ⟨horderly, hsession⟩ := h.orderly
  have hhosts := hds.hosts hm horderly
  rw [hsession] at hhosts
  refine ⟨hsession, fun s hs => isOpen_iff.mpr (hhosts.opened hs), fun s hs => ?_,
    h.nothing hm hds, fun out hr => (hr ▸ h).all hm hds, fun e he => ?_, ?_⟩
  · have hnone : ctx.session = none := by
      rcases h.calls hs rfl with ⟨-, hnone⟩ | ⟨_, _, _, hcall, -⟩ | ⟨_, hcall | hcall⟩
      · exact hnone
      · cases hcall
      · cases hcall
      · cases hcall
    rcases hds.over hm horderly (Or.inr (Or.inr hs)) with hs' | hgone
    · cases (hs'.symm.trans hsession).trans hnone
    · exact hgone.left_nothing hhosts.coherent
  · rcases h.calls he rfl with ⟨hcall, -⟩ | ⟨_, _, _, hcall, -⟩ | ⟨_, hcall | hcall⟩
    · cases hcall
    · cases hcall
    · cases hcall
    · cases hcall
  · intro d s id changes row hd hcall hrow hmax e
    obtain ⟨o', now, hbefore, hsuits, -⟩ := hds.at hm horderly hd
    rw [hcall] at hsuits
    obtain rfl : o' = some s := hsuits
    have haside : d.heard.aside = false := by
      generalize d.heard = x at hcall
      obtain ⟨_, a⟩ := x
      subst hcall
      rfl
    rcases h.calls (List.mem_map_of_mem hd) haside with
      ⟨hcall', -⟩ | ⟨s', how, changes', hcall', hset⟩ | ⟨_, hcall' | hcall'⟩
    · cases hcall.symm.trans hcall'
    · obtain ⟨rfl, rfl, rfl⟩ : s = s' ∧ id = v.id ∧ changes = changes' := by
        injection hcall.symm.trans hcall' with hcall
        injection hcall with h₁ h₂ h₃
        exact ⟨h₁, h₂, h₃⟩
      refine update_not_refused hbefore hrow ?_ e
      have hover : ¬ changes.Oversteps v := not_oversteps_nextAttempt hset.trys
      unfold Changes.Oversteps at hover ⊢
      rwa [hmax]
    · cases hcall.symm.trans hcall'
    · cases hcall.symm.trans hcall'

/-- An attempt that succeeds has changed its record with one answer, the last; one that does not has
changed nothing, and leaves the context where it was. -/
theorem execute_all_or_nothing (hm : m.Coherent) (hctx : ∀ s, ctx.session = some s → m.isOpen s)
    (h : (c.execute ctx v deadline).run.Amid wait ctx.session m ds r m') :
    Attempted ctx v ds r m' := by
  have hhosts : m.Hosts ctx.session := ⟨hm, fun hs => isOpen_iff.mp (hctx _ hs)⟩
  rcases always_execute c deadline _ _ h.yields with ⟨e, htold, rfl⟩ | hconcluded
  · exact attempted_of_unannounced hhosts h.deals htold
  · exact hconcluded.attempted hhosts h.deals

end

/-- A job that runs, and a session that is open. -/
def openStore : Memory where
  rows := [(lone.id, { lone with status := .running })]
  sessions := [(1, {})]
  nextSession := 2

/-- The attempt succeeds in the open session: what it made of the record is staged there, and the
row waits for the commit. -/
theorem success_is_staged : ∃ ds m',
    (Controller.execute ⟨[lone.action]⟩ { correlationId := "ctx", session := some 1 }
        { lone with status := .running } 1000).run.Amid 0 (some 1) openStore ds
      (some (.ok (.finished 1))) m' ∧
    Attempted { correlationId := "ctx", session := some 1 } { lone with status := .running } ds
      (some (.ok (.finished 1))) m' ∧
    m'.rows = openStore.rows ∧ (m'.current 1 lone.id).map Job.status = some .finished := by
  have hopen : openStore.Coherent :=
    coherent_of_serveAll [.insert { lone with status := .running }, .begin] (by decide)
  have hsession : ∀ s, some 1 = some s → openStore.isOpen s := by
    intro s hs
    obtain rfl := Option.some.inj hs
    rfl
  obtain ⟨ds, m', hrun, hrows, hstaged⟩ : ∃ ds m',
      (Controller.execute ⟨[lone.action]⟩ { correlationId := "ctx", session := some 1 }
          { lone with status := .running } 1000).run.enact .epoch openStore
        [.heard (.ok ()), .acted (some (.ok .null)), .heard (.ok ()), .plain, .plain] =
          some (ds, some (.ok (.finished 1)), m') ∧
      m'.rows = openStore.rows ∧ (m'.current 1 lone.id).map Job.status = some .finished :=
    ⟨_, _, rfl, rfl, rfl⟩
  have hamid := Program.amid_of_enact 0 (some 1) hrun
  exact ⟨ds, m', hamid, execute_all_or_nothing hopen hsession hamid, hrows, hstaged⟩

end JobEngine
