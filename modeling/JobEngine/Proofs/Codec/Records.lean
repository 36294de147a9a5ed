import JobEngine.Proofs.Codec.Values
import JobEngine.Proofs.Store.Calls
import JobEngine.Store.QueryCodec

/-!
# Records come back from JSON

A record is written as an object and read from it again.  Everything comes back, in jobs, summaries,
filters, queries and pages, but for one thing: a result may be missing, which is written `null`, and
a result may be `null`.  So a job that ended with the result `null` comes back without one.

* `Job.kept`, `Page.kept`   what is left of a job, and of a page;
* `Job.ofJson?_toJson` and its like   each kind of record;
* `null_results_are_lost`   all of them;
* `finished_without_a_result`   a job that is not the same when it comes back.
-/

namespace JobEngine

open Json

/-! ## jobs -/

namespace Job

/-- A job without a result that is `null`. -/
def kept (j : Job) : Job := { j with result := j.result.filter fun v => decide (v ≠ .null) }

theorem kept_eq_self_iff {j : Job} : j.kept = j ↔ j.result ≠ some .null := by
  constructor
  · intro h hnull
    have hresult : j.kept.result = none := by
      unfold kept
      rw [hnull]
      rfl
    rw [h, hnull] at hresult
    cases hresult
  · intro h
    have hresult : j.result.filter (fun v => decide (v ≠ .null)) = j.result := by
      cases hr : j.result with
      | none => rfl
      | some v =>
        have hv : v ≠ .null := fun hv => h (hr.trans (congrArg some hv))
        rw [Option.filter_some, if_pos (decide_eq_true hv)]
    unfold kept
    rw [hresult]

theorem ofJson?_toJson (j : Job) : ofJson? j.toJson = some j.kept := by
  obtain ⟨f, hf, h⟩ := fields?_record fieldNames j.members (by simp [members])
  have hresult : orNull? some (ofOption (fun v => v) j.result) = some j.kept.result :=
    orNull?_ofOption (fun v => v) (fun _ => rfl) j.result
  have herror : orNull? asStr? (ofOption .str j.error) = some j.error :=
    orNull?_ofOption_self asStr?_str nofun j.error
  unfold ofJson? toJson
  rw [hf, Option.bind_eq_bind, Option.bind_some,
    h.required "id" rfl (Uuid.ofJson?_toJson j.id),
    h.required "project_id" rfl (ProjectId.ofJson?_toJson j.project),
    h.required "action" rfl (asStr?_str j.action),
    h.required "status" rfl (Status.ofJson?_toJson j.status),
    h.required "params" rfl (a := j.params) rfl,
    h.optional "result" rfl hresult,
    h.optional "error" rfl herror,
    h.required "run_at" rfl (Instant.ofJson?_toJson j.runAt),
    h.required "try_period" rfl (asWord?_ofWord j.tryPeriod),
    h.required "try_max" rfl (asWord?_ofWord j.tryMax),
    h.required "trys" rfl (asWord?_ofWord j.trys),
    h.required "created" rfl (Instant.ofJson?_toJson j.created),
    h.required "updated" rfl (Instant.ofJson?_toJson j.updated)]
  rfl

end Job

theorem Summary.ofJson?_toJson (s : Summary) : ofJson? s.toJson = some s := by
  obtain ⟨f, hf, h⟩ := fields?_record fieldNames
    [("jobId", s.id.toJson), ("projectId", s.project.toJson), ("action", .str s.action),
      ("status", s.status.toJson), ("resourceIds", .strings s.resources),
      ("updated", s.updated.toJson), ("created", s.created.toJson)] (by simp)
  unfold ofJson? toJson
  rw [hf, Option.bind_eq_bind, Option.bind_some,
    h.required "jobId" rfl (Uuid.ofJson?_toJson s.id),
    h.required "projectId" rfl (ProjectId.ofJson?_toJson s.project),
    h.required "action" rfl (asStr?_str s.action),
    h.required "status" rfl (Status.ofJson?_toJson s.status),
    h.required "resourceIds" rfl (list?_map_self asStr?_str s.resources),
    h.required "updated" rfl (Instant.ofJson?_toJson s.updated),
    h.required "created" rfl (Instant.ofJson?_toJson s.created)]

/-! ## listings -/

theorem SortOrder.ofJson?_toJson (o : SortOrder) : ofJson? o.toJson = some o := by
  cases o <;> rfl

theorem Filter.ofJson?_toJson (f : Filter) : ofJson? f.toJson = some f := by
  obtain ⟨g, hg, h⟩ := fields?_record fieldNames
    [("ids", .ofOption (fun ids => .arr (ids.map Uuid.toJson)) f.ids),
      ("project_ids", .ofOption (fun ps => .arr (ps.map ProjectId.toJson)) f.projects),
      ("status", .ofOption (fun ss => .arr (ss.map Status.toJson)) f.statuses),
      ("due_by", .ofOption Instant.toJson f.dueBy)] (by simp)
  have hids := orNull?_ofOption_self (list?_map_self Uuid.ofJson?_toJson) nofun f.ids
  have hprojects := orNull?_ofOption_self (list?_map_self ProjectId.ofJson?_toJson) nofun f.projects
  have hstatuses := orNull?_ofOption_self (list?_map_self Status.ofJson?_toJson) nofun f.statuses
  have hdue := orNull?_ofOption_self Instant.ofJson?_toJson Instant.toJson_ne_null f.dueBy
  unfold ofJson? toJson
  rw [hg, Option.bind_eq_bind, Option.bind_some, h.optional "ids" rfl hids,
    h.optional "project_ids" rfl hprojects, h.optional "status" rfl hstatuses,
    h.optional "due_by" rfl hdue]

theorem orNull?_limit (limit : Option UInt64) :
    orNull? asLong? (ofOption .ofLong limit) = some limit :=
  orNull?_ofOption_self asLong?_ofLong nofun limit

theorem Query.ofJson?_toJson (q : Query) : ofJson? q.toJson = some q := by
  obtain ⟨f, hf, h⟩ := fields?_record fieldNames
    [("filter", q.filter.toJson), ("order", q.order.toJson), ("offset", .ofLong q.offset),
      ("limit", .ofOption .ofLong q.limit)] (by simp)
  unfold ofJson? toJson
  rw [hf, Option.bind_eq_bind, Option.bind_some,
    h.required "filter" rfl (Filter.ofJson?_toJson q.filter),
    h.required "order" rfl (SortOrder.ofJson?_toJson q.order),
    h.required "offset" rfl (asLong?_ofLong q.offset),
    h.optional "limit" rfl (orNull?_limit q.limit)]

namespace Page

/-- A page of what is left of its jobs. -/
def kept (p : Page) : Page := { p with items := p.items.map Job.kept }

theorem kept_eq_self_iff {p : Page} : p.kept = p ↔ ∀ j ∈ p.items, j.result ≠ some .null := by
  have hitems : p.kept = p ↔ p.items.map Job.kept = p.items.map id := by
    rw [List.map_id]
    exact ⟨fun h => congrArg Page.items h, fun h => by unfold kept; rw [h]⟩
  rw [hitems, List.map_inj_left]
  exact forall₂_congr fun j _ => Job.kept_eq_self_iff

theorem ofJson?_toJson (p : Page) : ofJson? p.toJson = some p.kept := by
  obtain ⟨f, hf, h⟩ := fields?_record fieldNames
    [("items", .arr (p.items.map Job.toJson)), ("total", .ofLong p.total),
      ("offset", .ofLong p.offset), ("limit", .ofOption .ofLong p.limit)] (by simp)
  unfold ofJson? toJson
  rw [hf, Option.bind_eq_bind, Option.bind_some,
    h.required "items" rfl (list?_map Job.ofJson?_toJson p.items),
    h.required "total" rfl (asLong?_ofLong p.total),
    h.required "offset" rfl (asLong?_ofLong p.offset),
    h.optional "limit" rfl (orNull?_limit p.limit)]
  rfl

end Page

/-- **Records come back from JSON, but for results that are `null`.**  A job that is written can be
read, and comes back as it was unless its result is `null`, which it then lacks.  So it is with the
jobs of a page.  Queries, filters and summaries come back as they were. -/
theorem null_results_are_lost (j : Job) (p : Page) (q : Query) (f : Filter) (s : Summary) :
    Job.ofJson? j.toJson = some j.kept ∧
      (Job.ofJson? j.toJson = some j ↔ j.result ≠ some .null) ∧
      Page.ofJson? p.toJson = some p.kept ∧
      (Page.ofJson? p.toJson = some p ↔ ∀ j ∈ p.items, j.result ≠ some .null) ∧
      Query.ofJson? q.toJson = some q ∧ Filter.ofJson? f.toJson = some f ∧
      Summary.ofJson? s.toJson = some s := by
  refine ⟨j.ofJson?_toJson, ?_, p.ofJson?_toJson, ?_, q.ofJson?_toJson, f.ofJson?_toJson,
    s.ofJson?_toJson⟩
  · rw [j.ofJson?_toJson, Option.some_inj, Job.kept_eq_self_iff]
  · rw [p.ofJson?_toJson, Option.some_inj, Page.kept_eq_self_iff]

/-- The first attempt has succeeded, with nothing to say. -/
theorem finished_without_a_result :
    let j : Job := { Memory.sample with status := .finished, trys := 1, result := some .null }
    j.result.isSome ∧ Job.ofJson? j.toJson = some { j with result := none } ∧
      Job.ofJson? j.toJson ≠ some j := by
  intro j
  have hback : Job.ofJson? j.toJson = some { j with result := none } := j.ofJson?_toJson
  refine ⟨rfl, hback, fun h => ?_⟩
  rw [hback] at h
  exact absurd (congrArg Job.result (Option.some.inj h)) nofun

end JobEngine
