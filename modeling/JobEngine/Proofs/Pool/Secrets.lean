import JobEngine.Proofs.Pool.Budget
import JobEngine.Proofs.Pool.Twins

/-!
# Where secrets go

What a job was created with reaches its action at every attempt.  The row keeps it until the job
ends, and from then on its redacted form.  So two runs whose requests differ in secrets log the same
lines, and end jobs with the same records.

* `Pool.CreatedWith`   the parameters in the request that a job was created by;
* `Json.kept`          what is kept of them, by the status of the job;
* `Pool.Discreet`      the rows keep no more than that;
* `Reachable.discreet`   so it always is;
* `secrets_reach_actions_only`   together with what two runs show.
-/

namespace JobEngine

/-- What is kept of the parameters of a job that has a status. -/
def Json.kept (p : Json) (status : Status) : Json := if status.terminal then p.redact else p

theorem NewJob.params_of_toJob {request : NewJob} {id : JobId} {now : Instant} {j : Job}
    (h : request.toJob id now = .ok j) : j.params = request.params ∧ j.status = .pending := by
  refine ⟨?_, (of_toJob_eq_ok h).2.1⟩
  unfold toJob at h
  split at h
  · simp at h
  split at h
  · simp at h
  · rw [← Except.ok.inj h]

section
variable {p : Json} {v : Job} {how : Except ActionError Json} {c : Changes}

/-- An attempt leaves the parameters as they are if there is to be another one, and redacts them if
there is none. -/
theorem Settles.params (h : Settles v how c) (hv : v.params = p) :
    (c.overwrite v).params = p.kept (c.overwrite v).status := by
  subst hv
  cases h with
  | finished | exhausted | retry => rfl

end

/-- The deed files a new job for a request with these parameters. -/
def Deed.CreatesWith (d : Deed) (id : JobId) (p : Json) : Prop :=
  ∃ c request j, d.task = .create c request ∧ request.params = p ∧ d.Creates id j

namespace Pool

/-- The job was created by a request with these parameters. -/
def CreatedWith (P : Pool) (id : JobId) (p : Json) : Prop := ∃ d ∈ P.past, d.CreatesWith id p

variable {P P' Q : Pool} {d : Deed} {id : JobId} {r : Job} {p q : Json} {ρ : Pool → Pool → Prop}
  {m : Memory} {now : Instant}

theorem CreatedWith.happens (h : P.CreatedWith id p) (hd : P.Happens d P') :
    P'.CreatedWith id p := by
  obtain ⟨e, he, hc⟩ := h
  exact ⟨e, by rw [hd.past_eq]; exact List.mem_append_left _ he, hc⟩

theorem CreatedWith.reachable (h : P.CreatedWith id p) (hQ : Reachable ρ P Q) :
    Q.CreatedWith id p := by
  induction hQ with
  | refl => exact h
  | step _ hs _ ih =>
    rcases hs.cases_past with ⟨d, hd⟩ | ⟨hpast, _⟩
    · exact ih.happens hd
    · unfold CreatedWith
      rw [hpast]
      exact ih

/-- A job is created once. -/
theorem Reachable.createdWith_unique (h : Reachable Orderly (fresh {} now) P)
    (hp : P.CreatedWith id p) (hq : P.CreatedWith id q) : p = q := by
  refine h.invariant (I := fun P => P.CreatedWith id p → P.CreatedWith id q → p = q) ?_
    (fun P P' hP ih hs _ => ?_) hp hq
  · rintro ⟨d, hd, _⟩
    exact absurd hd List.not_mem_nil
  · rcases hs.cases_past with ⟨d, hd⟩ | ⟨hpast, _⟩
    · have hnew {p : Json} : P'.CreatedWith id p → P.CreatedWith id p ∨ d.CreatesWith id p := by
        rintro ⟨e, he, hc⟩
        rcases hd.past_cases he with he | rfl
        · exact Or.inl ⟨e, he, hc⟩
        · exact Or.inr hc
      have hfirst {p q : Json} (hp : P.CreatedWith id p) (hq : d.CreatesWith id q) : False := by
        obtain ⟨e, he, _, _, j, _, _, hc⟩ := hp
        obtain ⟨_, _, j', _, _, hc'⟩ := hq
        exact (hP.tracked id).absent (hd.creates hc').1 he hc
      intro hp hq
      rcases hnew hp with hp | hp <;> rcases hnew hq with hq | hq
      · exact ih hp hq
      · exact (hfirst hp hq).elim
      · exact (hfirst hq hp).elim
      · obtain ⟨c, request, _, htask, rfl, _⟩ := hp
        obtain ⟨c', request', _, htask', rfl, _⟩ := hq
        rw [htask] at htask'
        injection htask' with _ e
        rw [e]
    · unfold CreatedWith
      rw [hpast]
      exact ih

/-! ## rows -/

/-- The row of a job keeps what it may of the parameters that the job was created with. -/
def Discreet (P : Pool) (id : JobId) : Prop :=
  ∀ r, P.memory.rows.get? id = some r → ∃ p, P.CreatedWith id p ∧ r.params = p.kept r.status

/-- What is filed of a job keeps what it may. -/
theorem Filing.discreet {j : Job} (h : P.Filing d) (hfile : d.files id = some j)
    (hr : d.before.rows.get? id = some r) (hkept : r.params = p.kept r.status)
    (hcurrent : ∀ v how c, P.Concludes d id v r how c → v = r ∧ r.status = .running) :
    j.params = p.kept j.status := by
  rcases h.files_cases hfile with hclaim | hreset | ⟨v, r', how, c, hc⟩
  · obtain ⟨_, j₀, stamp, _, _, _, _, hrow, hpending, hfiles⟩ := h.of_claims hclaim
    obtain ⟨_, rfl⟩ := hfiles.eq_of_files hfile
    obtain rfl := Option.some.inj (hr.symm.trans hrow)
    rw [hpending] at hkept
    exact hkept
  · obtain ⟨_, j₀, stamp, _, _, _, _, hrow, hrunning, hfiles⟩ := h.of_resets hreset
    obtain ⟨_, rfl⟩ := hfiles.eq_of_files hfile
    obtain rfl := Option.some.inj (hr.symm.trans hrow)
    rw [hrunning] at hkept
    exact hkept
  · obtain ⟨_, rfl⟩ := hc.files.eq_of_files hfile
    obtain rfl := Option.some.inj (hr.symm.trans hc.row)
    obtain ⟨rfl, hrun⟩ := hcurrent v how c hc
    rw [hrun] at hkept
    exact hc.settles.params hkept

theorem discreet_happens (hD : P.Discreet id) (h : Reachable Orderly (fresh {} now) P)
    (hd : P.Happens d P') : P'.Discreet id := by
  intro r' hr'
  have hm := Memory.quiet_empty
  have hP := h.sound hm
  have hfiling := hP.filing hd
  have hafter : d.after.rows.get? id = some r' := hd.memory_eq.1 ▸ hr'
  rcases hfiling.row_cases id with
    ⟨_, hsame⟩ | ⟨r, j, hfile, hrow, hj⟩ | ⟨_, habsent, c, request, id', now', j, htask, hnew, hj⟩
  · rw [hafter, ← hd.memory_eq.2] at hsame
    obtain ⟨p, hp, hkept⟩ := hD r' hsame.symm
    exact ⟨p, hp.happens hd, hkept⟩
  · obtain rfl := Option.some.inj (hafter.symm.trans hj)
    obtain ⟨p, hp, hkept⟩ := hD r (hd.memory_eq.2 ▸ hrow)
    exact ⟨p, hp.happens hd, hfiling.discreet hfile hrow hkept fun v how c hc =>
      (h.current hm hd hc).resolve_left (h.not_overtaken hm hd)⟩
  · obtain rfl := Option.some.inj (hafter.symm.trans hj)
    have hcreates := hP.creates hd (hd.memory_eq.2 ▸ habsent) hr'
    obtain ⟨hparams, hpending⟩ := NewJob.params_of_toJob hnew
    refine ⟨request.params, ⟨d, by rw [hd.past_eq]; simp, c, request, r', htask, rfl, hcreates⟩, ?_⟩
    rw [hparams, hpending]
    rfl

/-- Rows keep no more than they may. -/
theorem Reachable.discreet (h : Reachable Orderly (fresh {} now) P) (id : JobId) :
    P.Discreet id := by
  refine h.invariant (I := fun P => P.Discreet id) (fun r hr => by simp at hr) ?_
  intro P P' hP hD hs _
  rcases hs.cases_past with ⟨d, hd⟩ | ⟨hpast, hrows⟩
  · exact discreet_happens hD hP hd
  · intro r hr
    obtain ⟨p, ⟨d, hd, hc⟩, hkept⟩ := hD r (hrows ▸ hr)
    exact ⟨p, ⟨d, hpast ▸ hd, hc⟩, hkept⟩

/-- An action is told what its job was created with. -/
theorem Reachable.told_params {i : Invocation} (h : Reachable Orderly (fresh {} now) P)
    (hd : d ∈ P.past) (hi : d.Invokes i) : P.CreatedWith i.job i.params := by
  have hm := Memory.quiet_empty
  obtain ⟨xs, ys, hsplit⟩ := List.append_of_mem hd
  obtain ⟨Q, Q', hQ, _, hd, hr, hQP⟩ := h.deed rfl hsplit
  have hQ' : Reachable Orderly (fresh {} now) Q' := .step hQ (.answer hd) hr
  -- the unit has loaded the row as it is
  obtain ⟨v, hst, _, _, deadline, hv⟩ := hQ'.invokes hm hd hi
  obtain ⟨w, p, hu, htask, hasks, _⟩ := hd.at_unit
  have hex := hQ'.executes_of_invoke hm hu (hasks.symm.trans hi)
  have hx : Q'.Exclusive := hQ'.exclusive hm fun _ _ h => h
  obtain ⟨hrow, hrun⟩ := hx.row_of_view hQ' hm hex hu (v := v) (by rw [htask, hst]; rfl)
  obtain ⟨p, hp, hkept⟩ := hQ'.discreet i.job v hrow
  rw [hrun] at hkept
  rw [show i.params = p by rw [hv]; exact hkept]
  exact hp.reachable hQP

/-! ## two runs -/

/-- **Secrets reach the action and nothing that is kept.**  In every run of any units over a store
that was empty, with any answers, with units abandoned anywhere and no job put back while a unit
executes it: an action is told what its job was created with, at every attempt; the row of a job
that waits or runs has just that, and the row of one that has ended its redacted form.  A schedule
that differs in the secrets of new jobs goes through as well, logs the same lines, the one that an
attempt begins with among them, and ends jobs with the same records. -/
theorem secrets_reach_actions_only {es : List Event} {ls : List LogLine}
    (h : Runs Orderly (fresh {} now) es ls P) :
    (∀ d ∈ P.past, ∀ i, d.Invokes i → P.CreatedWith i.job i.params) ∧
    (∀ id r, P.memory.rows.get? id = some r →
      ∃ p, P.CreatedWith id p ∧ r.params = p.kept r.status) ∧
    (∀ id p q, P.CreatedWith id p → P.CreatedWith id q → p = q) ∧
    ∀ es', SchedulesAlike es es' →
      (∃ ls' Q, Runs anyhow (fresh {} now) es' ls' Q) ∧
      ∀ ls' Q, Runs anyhow (fresh {} now) es' ls' Q → ls' = ls ∧
        ∀ id r, r.status.terminal →
          (P.memory.rows.get? id = some r ↔ Q.memory.rows.get? id = some r) := by
  have hP : Reachable Orderly (fresh {} now) P := reachable_iff_runs.mpr ⟨es, ls, h⟩
  refine ⟨fun d hd i hi => hP.told_params hd hi, fun id => hP.discreet id,
    fun id p q hp hq => hP.createdWith_unique hp hq, fun es' halike => ?_⟩
  obtain ⟨Q, hQ, htwins⟩ := (Twins.refl_fresh {} now).runs halike h
  refine ⟨⟨ls, Q, hQ⟩, fun ls' Q' hQ' => ?_⟩
  obtain ⟨rfl, rfl⟩ := hQ.unique hQ'
  exact ⟨rfl, fun id r hend => htwins.row_iff id hend⟩

/-- A job with a password is created, and its first attempt succeeds. -/
def withPassword (password : String) : List Event :=
  [.start (.create ⟨["echo"]⟩
    { action := "echo", params := .obj [("Password", .str password), ("user", .str "me")] }),
    .go 0 (.named (World.madeId 1)), .go 0 .plain, .go 0 .plain,
    .start (.run ⟨["echo"]⟩ "worker" (World.madeId 1) 1000)] ++
  List.replicate 6 (.go 1 .plain) ++
  [.go 1 (.heard (.ok ())), .go 1 (.acted (some (.ok .null))), .go 1 (.heard (.ok ()))] ++
  List.replicate 4 (.go 1 .plain)

theorem withPassword_alike (password password' : String) :
    SchedulesAlike (withPassword password) (withPassword password') := by
  refine .cons (.start (.create ⟨["echo"]⟩ _ (.obj ?_))) (.refl _)
  exact .hidden _ _ (Or.inl (by decide)) (.shown (.same _) .nil)

/-- An action starts that is told the password. -/
def toldPassword (password : String) (d : Deed) : Bool :=
  match d.asks with
  | some (.invoke i) => i.params = .obj [("Password", .str password), ("user", .str "me")]
  | _ => false

/-- The line that shows the mask. -/
def showsMask (l : LogLine) : Bool :=
  l.message = "executing job" &&
    ("params", .str "\x7b\"Password\":\"********\",\"user\":\"me\"\x7d") ∈ l.fields

/-- Two runs with different passwords: one log, with the mask in it, and one record. -/
theorem passwords_leave_no_trace : ∃ P Q ls,
    Runs Orderly (fresh {} .epoch) (withPassword "hunter2") ls P ∧
    Runs anyhow (fresh {} .epoch) (withPassword "swordfish") ls Q ∧
    P.past.any (toldPassword "hunter2") ∧ ls.any showsMask ∧
    ∃ r, P.memory.rows.get? (World.madeId 1) = some r ∧
      Q.memory.rows.get? (World.madeId 1) = some r ∧ r.status = .finished ∧
      r.params = .obj [("Password", .str "********"), ("user", .str "me")] := by
  obtain ⟨⟨P, ls⟩, hreplay, hall⟩ := Option.map_eq_some_iff.mp
    (show (replay settled (fresh {} .epoch) (withPassword "hunter2")).map
        (fun x => (x.1.past.any (toldPassword "hunter2"), x.2.any showsMask,
          (x.1.memory.rows.get? (World.madeId 1)).map fun r => (r.status, r.params))) =
        some (true, true, some (.finished,
          .obj [("Password", .str "********"), ("user", .str "me")])) by decide +kernel)
  obtain ⟨htold, hall⟩ := Prod.mk.inj hall
  obtain ⟨hmask, hrow⟩ := Prod.mk.inj hall
  obtain ⟨r, hr, hkept⟩ := Option.map_eq_some_iff.mp hrow
  obtain ⟨hstatus, hparams⟩ := Prod.mk.inj hkept
  have hruns : Runs Orderly (fresh {} .epoch) (withPassword "hunter2") ls P :=
    runs_of_replay (fun _ _ => orderly_of_settled) hreplay
  obtain ⟨_, _, _, htwin⟩ := secrets_reach_actions_only hruns
  obtain ⟨⟨ls', Q, hQ⟩, hsame⟩ := htwin _ (withPassword_alike "hunter2" "swordfish")
  obtain ⟨rfl, hrows⟩ := hsame ls' Q hQ
  exact ⟨P, Q, ls', hruns, hQ, htold, hmask, r, hr,
    (hrows _ r (by rw [hstatus]; rfl)).mp hr, hstatus, hparams⟩

end Pool

end JobEngine
