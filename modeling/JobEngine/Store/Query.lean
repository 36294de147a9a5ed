import JobEngine.Job.Basic

/-!
# Listings

* `Filter.Matches`   which jobs a listing shows;
* `Query.select`     one page of the jobs given, ordered by creation and then identifier;
* `Page.hasMore?`    whether matches follow the page.
-/

namespace JobEngine

/-- The direction of a listing. -/
inductive SortOrder
  | ascending
  | descending
deriving DecidableEq, Repr, Inhabited

namespace SortOrder

def text : SortOrder → String
  | ascending => "ascending"
  | descending => "descending"

def ofText? : String → Option SortOrder
  | "ascending" => some ascending
  | "descending" => some descending
  | _ => none

/-- The word of the query language. -/
def keyword : SortOrder → String
  | ascending => "ASC"
  | descending => "DESC"

end SortOrder

/-- Conditions on jobs.  A missing list asks for nothing, an empty one matches no job. -/
structure Filter where
  ids : Option (List JobId) := none
  projects : Option (List ProjectId) := none
  statuses : Option (List Status) := none
  dueBy : Option Instant := none
deriving DecidableEq, Inhabited

namespace Filter

/-- A condition that may be missing. -/
def holds (condition : Option α) (p : α → Bool) : Bool :=
  match condition with
  | none => true
  | some a => p a

def admits (f : Filter) (j : Job) : Bool :=
  holds f.ids (·.contains j.id) && holds f.projects (·.contains j.project) &&
    holds f.statuses (·.contains j.status) && holds f.dueBy fun t => decide (j.runAt ≤ t)

end Filter

/-- A listing: conditions, direction and the part of the matches that is wanted. -/
structure Query where
  filter : Filter := {}
  order : SortOrder := .descending
  offset : UInt64 := 0
  /-- No limit shows every match. -/
  limit : Option UInt64 := some 10
deriving DecidableEq, Inhabited

/-- A part of the matches. -/
structure Page where
  items : List Job
  /-- How many match in all. -/
  total : UInt64
  offset : UInt64
  limit : Option UInt64
deriving DecidableEq, Inhabited

/-- Older jobs first; of jobs of one instant the smaller identifier. -/
def Job.precedes (a b : Job) : Bool :=
  decide (a.created < b.created) || (decide (a.created = b.created) && decide (a.id ≤ b.id))

namespace Query

/-- All matches in the order of the listing. -/
def ordered (q : Query) (jobs : List Job) : List Job :=
  let sorted := (jobs.filter q.filter.admits).mergeSort Job.precedes
  match q.order with
  | .ascending => sorted
  | .descending => sorted.reverse

/-- The part of a list from `offset` on, at most `limit` of it. -/
def window (offset : Nat) (limit : Option Nat) (xs : List α) : List α :=
  match limit with
  | none => xs.drop offset
  | some n => (xs.drop offset).take n

/-- One page of the matches. -/
def select (q : Query) (jobs : List Job) : Page :=
  let found := q.ordered jobs
  { items := window q.offset.toNat (q.limit.map UInt64.toNat) found
    total := UInt64.ofNat found.length
    offset := q.offset
    limit := q.limit }

end Query

/-- Whether matches follow; nothing if the sum does not fit the counter. -/
def Page.hasMore? (p : Page) : Option Bool :=
  let seen := p.offset.toNat + p.items.length
  if seen < UInt64.size then some (decide (seen < p.total.toNat)) else none

end JobEngine
