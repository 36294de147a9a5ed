import JobEngine.Job.Codec
import JobEngine.Store.Query

/-!
# Listings as JSON

* `SortOrder.ofJson?`, `Filter.ofJson?`, `Query.ofJson?`, `Page.ofJson?` and their `toJson`.
-/

namespace JobEngine

namespace SortOrder

def toJson (o : SortOrder) : Json := .str o.text

def ofJson? (v : Json) : Option SortOrder := v.variant?.bind ofText?

end SortOrder

namespace Filter

def fieldNames : List String := ["ids", "project_ids", "status", "due_by"]

def toJson (f : Filter) : Json := .record
  [("ids", .ofOption (fun ids => .arr (ids.map Uuid.toJson)) f.ids),
    ("project_ids", .ofOption (fun ps => .arr (ps.map ProjectId.toJson)) f.projects),
    ("status", .ofOption (fun ss => .arr (ss.map Status.toJson)) f.statuses),
    ("due_by", .ofOption Instant.toJson f.dueBy)]

def ofJson? (v : Json) : Option Filter := do
  let f ← v.fields? fieldNames
  some
    { ids := ← f.optional "ids" (Json.list? Uuid.ofJson?)
      projects := ← f.optional "project_ids" (Json.list? ProjectId.ofJson?)
      statuses := ← f.optional "status" (Json.list? Status.ofJson?)
      dueBy := ← f.optional "due_by" Instant.ofJson? }

end Filter

namespace Query

def fieldNames : List String := ["filter", "order", "offset", "limit"]

def toJson (q : Query) : Json := .record
  [("filter", q.filter.toJson), ("order", q.order.toJson), ("offset", .ofLong q.offset),
    ("limit", .ofOption .ofLong q.limit)]

def ofJson? (v : Json) : Option Query := do
  let f ← v.fields? fieldNames
  some
    { filter := ← f.required "filter" Filter.ofJson?
      order := ← f.required "order" SortOrder.ofJson?
      offset := ← f.required "offset" Json.asLong?
      limit := ← f.optional "limit" Json.asLong? }

end Query

namespace Page

def fieldNames : List String := ["items", "total", "offset", "limit"]

def toJson (p : Page) : Json := .record
  [("items", .arr (p.items.map Job.toJson)), ("total", .ofLong p.total),
    ("offset", .ofLong p.offset), ("limit", .ofOption .ofLong p.limit)]

def ofJson? (v : Json) : Option Page := do
  let f ← v.fields? fieldNames
  some
    { items := ← f.required "items" (Json.list? Job.ofJson?)
      total := ← f.required "total" Json.asLong?
      offset := ← f.required "offset" Json.asLong?
      limit := ← f.optional "limit" Json.asLong? }

end Page

end JobEngine
