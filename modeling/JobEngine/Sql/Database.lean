import JobEngine.Sql.Store

/-!
# What a database makes of statements

* `Sql.Truth`             true, false or unknown;
* `Sql.selects`           whether a row is selected by conditions;
* `Sql.rewrite`           a row with the settings of an update;
* `Sql.breach?`           the first rule of the table that a row breaks;
* `Sql.Database`          rows that keep the rules, each under a key of its own;
* `Sql.Database.answer`   the reply to a statement, and the database behind it;
* `Sql.Database.run`      a program of statements that has the database to itself.

Nothing is known of a comparison with the missing value.  A row is selected if its conditions are
true, and refused if one of its checks is false.  Statements of sessions have no meaning here.
-/

namespace JobEngine.Sql

/-- What is known of a condition. -/
abbrev Truth := Option Bool

namespace Truth

def and : Truth → Truth → Truth
  | some false, _ | _, some false => some false
  | some true, some true => some true
  | _, _ => none

def or : Truth → Truth → Truth
  | some true, _ | _, some true => some true
  | some false, some false => some false
  | _, _ => none

@[simp] theorem true_and (x : Truth) : and (some true) x = x := by
  rcases x with _ | _ | _ <;> rfl

@[simp] theorem some_and (a b : Bool) : and (some a) (some b) = some (a && b) := by
  cases a <;> cases b <;> rfl

@[simp] theorem some_or (a b : Bool) : or (some a) (some b) = some (a || b) := by
  cases a <;> cases b <;> rfl

@[simp] theorem true_or (x : Truth) : or (some true) x = some true := by
  rcases x with _ | _ | _ <;> rfl

end Truth

/-! ## values -/

/-- What a column holds. -/
inductive Kind
  | uuid
  | text
  | json
  | time
  /-- A whole number of 32 bits with a sign. -/
  | int
deriving DecidableEq, Repr

def Column.kind : Column → Kind
  | .id => .uuid
  | .project | .action | .status | .error => .text
  | .params | .result => .json
  | .runAt | .created | .updated => .time
  | .tryPeriod | .tryMax | .trys => .int

namespace Datum

def isNull (d : Datum) : Bool := decide (d = null)

/-- Whether a column of a kind can hold the value. -/
def hasKind : Kind → Datum → Bool
  | _, null => true
  | .uuid, uuid _ => true
  | .text, text _ => true
  | .json, json _ => true
  | .time, time _ => true
  | .int, int n => decide (-2147483648 ≤ n ∧ n ≤ 2147483647)
  | _, _ => false

def equals (a b : Datum) : Truth := if a.isNull || b.isNull then none else some (decide (a = b))

def items? : Datum → Option (List Datum)
  | texts ss => some (ss.map text)
  | uuids us => some (us.map uuid)
  | _ => none

/-- Whether the value equals some item of a list. -/
def among (a list : Datum) : Truth :=
  list.items?.bind fun ds => (ds.map a.equals).foldr Truth.or (some false)

/-- Whether the value is at most another one of its kind. -/
def atMost : Datum → Datum → Truth
  | uuid u, uuid v => some (decide (u ≤ v))
  | time t, time u => some (decide (t ≤ u))
  | int n, int k => some (decide (n ≤ k))
  | _, _ => none

/-- How many rows a parameter speaks of, where the missing value sets no bound; nothing if there
can be no such number. -/
def span? : Datum → Option (Option Nat)
  | null => some none
  | int n => if n < 0 then none else some (some n.toNat)
  | _ => none

theorem equals_of_ne {a b : Datum} (ha : a ≠ null) (hb : b ≠ null) :
    a.equals b = some (decide (a = b)) := by
  unfold equals isNull
  rw [decide_eq_false ha, decide_eq_false hb]
  rfl

/-- Among values that are all there, one is found or not. -/
theorem among_eq {a list : Datum} {ds : List Datum} (ha : a ≠ null) (hlist : list.items? = some ds)
    (hds : null ∉ ds) : a.among list = some (decide (a ∈ ds)) := by
  unfold among
  rw [hlist]
  show (ds.map a.equals).foldr Truth.or (some false) = _
  clear hlist
  induction ds with
  | nil => rfl
  | cons d ds ih =>
    obtain ⟨hd, hds⟩ := not_or.mp (mt List.mem_cons.mpr hds)
    rw [List.map_cons, List.foldr_cons, ih hds, equals_of_ne ha (Ne.symm hd), Truth.some_or]
    simp

end Datum

/-! ## conditions and settings -/

/-- A parameter by its number. -/
def argument (params : List Datum) (p : Nat) : Datum := params.getD (p - 1) .null

def Condition.truth (params : List Datum) (r : Row) : Condition → Truth
  | equals c p => (r c).equals (argument params p)
  | among c _ p =>
    Truth.or (some (argument params p).isNull) ((r c).among (argument params p))
  | atMost c _ p =>
    Truth.or (some (argument params p).isNull) ((r c).atMost (argument params p))

/-- Whether all conditions are true of a row. -/
def selects (cs : List Condition) (params : List Datum) (r : Row) : Bool :=
  decide ((cs.map (Condition.truth params r)).foldr Truth.and (some true) = some true)

/-- The value behind an update of a column that had the value `old`. -/
def Setting.value (params : List Datum) (old : Datum) : Setting → Datum
  | orKeep p => if (argument params p).isNull then old else argument params p
  | when t p => if argument params t = .bool true then argument params p else old

/-- The row behind an update; every setting sees the row as it was. -/
def rewrite (settings : List (Column × Setting)) (params : List Datum) (r : Row) : Row := fun c =>
  match settings.lookup c with
  | some s => s.value params (r c)
  | none => r c

/-- The row of values in the order of the columns. -/
def rowOf (values : List Datum) : Row := fun c => values.getD (Column.all.idxOf c) .null

/-- Whether one row comes before another when rows ascend by creation and then identifier. -/
def precedes (a b : Row) : Bool :=
  let within (c : Column) (a b : Row) : Bool := decide ((a c).atMost (b c) = some true)
  within .created a b && (!within .created b a || within .id a b)

/-- The rows in the order of a listing. -/
def sorted (order : SortOrder) (rows : List Row) : List Row :=
  rows.mergeSort fun a b =>
    match order with
    | .ascending => precedes a b
    | .descending => precedes b a

/-! ## rules -/

/-- What is wrong with the rows that a statement asks for. -/
inductive Breach
  /-- A value is not of the kind of its column. -/
  | kind (c : Column)
  | missing (c : Column)
  /-- The check of a column is false. -/
  | check (c : Column)
  /-- Two rows have one key. -/
  | duplicate
  | limit
  | offset
deriving DecidableEq, Repr

/-- The code of a refusal. -/
def Breach.code : Breach → String
  | kind _ => "42804"
  | missing _ => "23502"
  | check _ => "23514"
  | duplicate => "23505"
  | limit => "2201W"
  | offset => "2201X"

/-- The columns that have a value in every row. -/
def required : List Column :=
  [.id, .project, .action, .status, .params, .runAt, .tryPeriod, .tryMax, .trys, .created, .updated]

/-- The checks of the columns. -/
def checks : List (Column × (Row → Truth)) :=
  [(.status, fun r => (r .status).among (.texts ["pending", "running", "finished", "error"])),
    (.tryPeriod, fun r => (Datum.int 0).atMost (r .tryPeriod)),
    (.tryMax, fun r => (Datum.int 1).atMost (r .tryMax)),
    (.trys, fun r => Truth.and ((Datum.int 0).atMost (r .trys)) ((r .trys).atMost (r .tryMax)))]

/-- The first rule of the table that a row breaks. -/
def breach? (r : Row) : Option Breach :=
  ((Column.all.find? fun c => !(r c).hasKind c.kind).map Breach.kind).or <|
    ((required.find? fun c => (r c).isNull).map Breach.missing).or <|
      (checks.find? fun k => k.2 r = some false).map fun k => Breach.check k.1

/-! ## the database -/

/-- The table of jobs. -/
structure Database where
  rows : List Row := []
  lawful : ∀ r ∈ rows, breach? r = none := by decide
  keyed : (rows.map fun r => r .id).Nodup := by decide
  /-- The words of its refusals. -/
  wording : Breach → String := Breach.code

namespace Database

/-- The database with other rows, or why it refuses them. -/
def file (d : Database) (rows : List Row) : Except Breach Database :=
  match h : rows.findSome? breach? with
  | some b => .error b
  | none =>
    if hk : (rows.map fun r => r .id).Nodup then
      .ok ⟨rows, List.findSome?_eq_none_iff.mp h, hk, d.wording⟩
    else .error .duplicate

def refuse (d : Database) (b : Breach) : Reply × Database :=
  (.failed (.refused b.code (d.wording b)), d)

/-- File other rows, `n` of them new or changed; a refusal changes nothing. -/
def change (d : Database) (rows : List Row) (n : Nat) : Reply × Database :=
  match d.file rows with
  | .ok d' => (.affected n, d')
  | .error b => d.refuse b

/-- The rows that conditions are true of. -/
def found (d : Database) (cs : List Condition) (params : List Datum) : List Row :=
  d.rows.filter (selects cs params)

/-- A part of the rows found, in the order of a listing. -/
def page (d : Database) (cs : List Condition) (order : SortOrder) (limit offset : Nat)
    (params : List Datum) : Reply × Database :=
  match (argument params offset).span?, (argument params limit).span? with
  | none, _ => d.refuse .offset
  | _, none => d.refuse .limit
  | some skip, some most =>
    (.rows (Query.window (skip.getD 0) most (sorted order (d.found cs params))), d)

/-- The reply to a statement, and the database behind it. -/
def answer (d : Database) (q : Request) : Option (Reply × Database) :=
  match q.statement with
  | .select cs _ => some (.rows (d.found cs q.params), d)
  | .count cs => some (.count (some (.int (d.found cs q.params).length)), d)
  | .page cs order limit offset => some (d.page cs order limit offset q.params)
  | .insert => some (d.change (d.rows ++ [rowOf q.params]) 1)
  | .update settings cs =>
    let set (r : Row) : Row := if selects cs q.params r then rewrite settings q.params r else r
    some (d.change (d.rows.map set) (d.found cs q.params).length)
  | .begin | .commit | .rollback | .lockTimeout _ | .migration => none

/-- A program of statements; nothing if it breaks down or uses a session. -/
def run (d : Database) : Program Server α → Option (α × Database)
  | .done a => some (a, d)
  | .call q k => (d.answer q).bind fun x => x.2.run (k x.1)
  | .crash => none

end Database

end JobEngine.Sql
