import JobEngine.Proofs.Conduct
import JobEngine.Proofs.Settings.Variables
import JobEngine.Proofs.Sql.Rows
import JobEngine.Proofs.Store.Calls

/-!
# The bound on waits for locks, from a setting to the database

A database takes the bound as milliseconds of 31 bits.  It refuses a larger number, and to it zero
is no bound at all.  No rule of the settings looks at the number.

* `Sql.opening`, `keeps_opening`   what a database is told until a session is open;
* `Sql.Backend`                a database in which others hold the rows that a session asks for;
* `Backend.exists_answer`      a session with a bound is answered in time, whatever others do;
* `Settings.ofVars_plain`      every number of 63 bits is accepted;
* `accepted_settings_bound_waits_if_they_fit`   what becomes of every setting.
-/

namespace JobEngine

/-- The calls of a store that is connected with settings. -/
def DatabaseSettings.perform (d : DatabaseSettings) :
    (c : StoreCall) → Program Sql.Server c.Answer :=
  Sql.perform d.lockTimeoutMs.toNat

/-- A session, and a locking read in it. -/
def DatabaseSettings.lockingRead (d : DatabaseSettings) (id : JobId) :
    Program Sql.Server (Except StoreError (Option Job)) := do
  match ← d.perform .begin with
  | .error e => pure (.error e)
  | .ok session => d.perform (.get session id true)

namespace Sql

variable {n : Nat}

/-! ## what is said -/

/-- How far the opening of a session has come. -/
inductive Opening
  | idle
  | begun
  | ready
  | over
deriving DecidableEq

def Reply.isFailure : Reply → Bool
  | failed _ => true
  | _ => false

/-- First the transaction, then its bound, and then nothing more.  The first failure is the end. -/
def opening (n : Nat) : Conduct Server Opening where
  may
    | .idle, q => q = ⟨.begin, []⟩
    | .begun, q => q = ⟨.lockTimeout n, []⟩
    | .ready, _ | .over, _ => False
  hear
    | .idle, _, r => if r.isFailure then .over else .begun
    | .begun, _, r => if r.isFailure then .over else .ready
    | stage, _, _ => stage

/-- There is a session exactly if nothing has failed. -/
def Opened (stage : Opening) : Except StoreError SessionId → Prop
  | .ok _ => stage = .ready
  | .error _ => stage = .over

theorem keeps_opening (n : Nat) : (beginSession n).Keeps (opening n) Opened .idle := by
  refine ⟨rfl, fun begun => ?_⟩
  cases begun with
  | failed f => exact rfl
  | rows | count | affected =>
    refine ⟨rfl, fun bound => ?_⟩
    cases bound <;> exact rfl

/-! ## what a database makes of it -/

/-- The longest bound there is on a wait for a lock. -/
def longestWait : Nat := 2147483647

def Fits (n : Nat) : Prop := 1 ≤ n ∧ n ≤ longestWait

instance : Decidable (Fits n) := inferInstanceAs (Decidable (_ ∧ _))

/-- A database as one session sees it.  For some time, or for ever, others hold its rows. -/
structure Backend where
  table : Database := {}
  /-- How much longer the rows are held; nothing if others do not let go. -/
  held : Option Nat
  /-- The bound on a wait for a lock, if there is one. -/
  patience : Option Nat := none
  clock : Nat := 0

namespace Backend

variable {b : Backend} {id : JobId}

def pass (b : Backend) (ms : Nat) : Backend :=
  { b with clock := b.clock + ms, held := b.held.map (· - ms) }

/-- Whether a wait gets the lock, and how long it is; nothing if it does not end. -/
def lockWait (b : Backend) : Option (Bool × Nat) :=
  match b.held, b.patience with
  | none, none => none
  | none, some most => some (false, most)
  | some ms, none => some (true, ms)
  | some ms, some most => if ms ≤ most then some (true, ms) else some (false, most)

/-- The conditions of the rows that a statement locks. -/
def locks? : Statement → Option (List Condition)
  | .select cs true | .update _ cs => some cs
  | _ => none

/-- Whether a statement needs the lock of a row. -/
def needsLock (b : Backend) (q : Request) : Bool :=
  (locks? q.statement).any fun cs => !(b.table.found cs q.params).isEmpty

/-- The reply of the table. -/
def serve (b : Backend) (q : Request) : Option (Reply × Backend) :=
  (b.table.answer q).map fun x => (x.1, { b with table := x.2 })

def timeout : Reply := .failed (.refused "55P03" "canceling statement due to lock timeout")

def outOfRange (n : Nat) : String :=
  toString n ++ " ms is outside the valid range for parameter \"lock_timeout\""

/-- The reply to a statement on rows, behind its wait. -/
def await (b : Backend) (q : Request) : Option (Reply × Backend) :=
  if b.needsLock q then
    match b.lockWait with
    | none => none
    | some (true, ms) => (b.pass ms).serve q
    | some (false, ms) => some (timeout, b.pass ms)
  else b.serve q

/-- The reply to a statement, and the database behind it; nothing if it does not come. -/
def answer (b : Backend) (q : Request) : Option (Reply × Backend) :=
  match q.statement with
  | .begin | .commit | .rollback => some (.affected 0, { b with patience := none })
  | .migration => some (.affected 0, b)
  | .lockTimeout n =>
    if n = 0 then some (.affected 0, { b with patience := none })
    else if n ≤ longestWait then some (.affected 0, { b with patience := some n })
    else some (.failed (.refused "22023" (outOfRange n)), b)
  | _ => b.await q

/-- A program of statements; nothing if it breaks down or waits for ever. -/
def run (b : Backend) : Program Server α → Option (α × Backend)
  | .done a => some (a, b)
  | .call q k => (b.answer q).bind fun x => x.2.run (k x.1)
  | .crash => none

theorem run_bind (b : Backend) (p : Program Server α) (f : α → Program Server β) :
    b.run (p.bind f) = (b.run p).bind fun x => x.2.run (f x.1) := by
  induction p generalizing b with
  | done a => rfl
  | call q k ih =>
    show ((b.answer q).bind fun x => x.2.run ((k x.1).bind f)) =
      ((b.answer q).bind fun x => x.2.run (k x.1)).bind _
    cases b.answer q with
    | none => rfl
    | some x => exact ih x.1 x.2
  | crash => rfl

/-! ### opening a session -/

theorem run_beginSession (b : Backend) (n : Nat) : b.run (beginSession n) =
    (answer { b with patience := none } ⟨.lockTimeout n, []⟩).map fun x =>
      (x.1.orFail "set_lock_timeout" fun _ => .ok 0, x.2) := by
  show ((answer _ ⟨.lockTimeout n, []⟩).bind fun x => x.2.run (.done _)) = _
  cases answer { b with patience := none } ⟨.lockTimeout n, []⟩ <;> rfl

theorem run_beginSession_zero (b : Backend) :
    b.run (beginSession 0) = some (.ok 0, { b with patience := none }) := rfl

theorem run_beginSession_of_fits (b : Backend) (h : Fits n) :
    b.run (beginSession n) = some (.ok 0, { b with patience := some n }) := by
  have hn : n ≠ 0 := Nat.one_le_iff_ne_zero.mp h.1
  rw [run_beginSession]
  unfold answer
  simp only [if_neg hn, if_pos h.2]
  rfl

/-- Nothing is opened with a bound that is out of range. -/
theorem run_beginSession_of_long (b : Backend) (h : longestWait < n) :
    b.run (beginSession n) =
      some (.error (.storage ("database error in set_lock_timeout: " ++ outOfRange n)),
        { b with patience := none }) := by
  have hn : n ≠ 0 := Nat.ne_zero_of_lt h
  rw [run_beginSession]
  unfold answer
  simp only [if_neg hn, if_neg (Nat.not_le.mpr h)]
  rfl

/-! ### waits -/

/-- A bound ends every wait: the lock is got by then, or the wait is given up. -/
theorem lockWait_of_patience (h : b.patience = some n) :
    (∃ ms ≤ n, b.held = some ms ∧ b.lockWait = some (true, ms)) ∨
      ((∀ ms, b.held = some ms → n < ms) ∧ b.lockWait = some (false, n)) := by
  unfold lockWait
  rw [h]
  cases b.held with
  | none => exact .inr ⟨nofun, rfl⟩
  | some ms =>
    by_cases hms : ms ≤ n
    · exact .inl ⟨ms, hms, rfl, if_pos hms⟩
    · refine .inr ⟨fun k hk => ?_, if_neg hms⟩
      obtain rfl := Option.some.inj hk
      exact Nat.lt_of_not_le hms

/-- Without a bound a wait is as long as others like. -/
theorem lockWait_of_no_patience (h : b.patience = none) :
    b.lockWait = b.held.map fun ms => (true, ms) := by
  unfold lockWait
  rw [h]
  cases b.held <;> rfl

theorem exists_serve (b : Backend) (q : Request) (hq : b.table.answer q ≠ none) :
    ∃ r t, b.serve q = some (r, { b with table := t }) := by
  obtain ⟨⟨r, t⟩, h⟩ := Option.ne_none_iff_exists'.mp hq
  refine ⟨r, t, ?_⟩
  unfold serve
  rw [h]
  rfl

theorem exists_await (h : b.patience = some n) (q : Request) (hq : b.table.answer q ≠ none) :
    ∃ r b', b.await q = some (r, b') ∧ b'.clock ≤ b.clock + n := by
  unfold await
  split
  · rcases lockWait_of_patience h with ⟨ms, hms, -, hw⟩ | ⟨-, hw⟩
    · obtain ⟨r, t, hr⟩ := exists_serve (b.pass ms) q hq
      rw [hw]
      exact ⟨r, _, hr, Nat.add_le_add_left hms _⟩
    · rw [hw]
      exact ⟨_, _, rfl, Nat.le_refl _⟩
  · obtain ⟨r, t, hr⟩ := exists_serve b q hq
    exact ⟨r, _, hr, Nat.le_add_right _ _⟩

/-- A session with a bound is answered in time, whatever is asked and whatever others do. -/
theorem exists_answer (h : b.patience = some n) (q : Request) :
    ∃ r b', b.answer q = some (r, b') ∧ b'.clock ≤ b.clock + n := by
  obtain ⟨statement, params⟩ := q
  cases statement with
  | select | count | page | insert | update => exact exists_await h _ nofun
  | begin | commit | rollback | migration => exact ⟨_, _, rfl, Nat.le_add_right _ _⟩
  | lockTimeout millis =>
    unfold answer
    dsimp only
    split
    · exact ⟨_, _, rfl, Nat.le_add_right _ _⟩
    · split <;> exact ⟨_, _, rfl, Nat.le_add_right _ _⟩

/-! ### a locking read -/

/-- The row of a job, if there is one. -/
def rowsOf (b : Backend) (id : JobId) : List Row := b.table.found byId [.uuid id]

theorem run_fetchJob (b : Backend) (id : JobId) : b.run (fetchJob id true) =
    (b.answer ⟨.select byId true, [.uuid id]⟩).map fun x =>
      (x.1.orFail "get_job" oneJob, x.2) := by
  show ((b.answer ⟨.select byId true, [.uuid id]⟩).bind fun x => x.2.run (.done _)) = _
  cases b.answer ⟨.select byId true, [.uuid id]⟩ <;> rfl

theorem answer_present (h : b.rowsOf id ≠ []) :
    b.answer ⟨.select byId true, [.uuid id]⟩ = b.lockWait.map fun w =>
      (if w.1 then .rows (b.rowsOf id) else timeout, b.pass w.2) := by
  have hneeds : b.needsLock ⟨.select byId true, [.uuid id]⟩ = true := by
    show (!(b.rowsOf id).isEmpty) = true
    rw [List.isEmpty_eq_false_iff.mpr h]
    rfl
  show (if b.needsLock _ then _ else _) = _
  rw [if_pos hneeds]
  rcases b.lockWait with _ | ⟨_ | _, ms⟩ <;> rfl

end Backend

end Sql

/-! ## settings -/

namespace DatabaseSettings

open Sql

variable {d : DatabaseSettings} {b b' : Backend} {id : JobId} {session : SessionId}

theorem run_lockingRead (h : b.run (d.perform .begin) = some (.ok session, b')) :
    b.run (d.lockingRead id) = b'.run (fetchJob id true) := by
  show b.run ((d.perform .begin).bind _) = _
  rw [Backend.run_bind, h]
  rfl

/-- With a bound that fits, a locking read ends by then, and fails if others hold the row longer. -/
theorem run_lockingRead_of_fits (h : Fits d.lockTimeoutMs.toNat) (b : Backend) (id : JobId) :
    ∃ r b', b.run (d.lockingRead id) = some (r, b') ∧
      b'.clock ≤ b.clock + d.lockTimeoutMs.toNat ∧
      (b.rowsOf id ≠ [] → (∀ ms, b.held = some ms → d.lockTimeoutMs.toNat < ms) →
        r = .error .lockWaitTimeout) := by
  let opened : Backend := { b with patience := some d.lockTimeoutMs.toNat }
  have hpatience : opened.patience = some d.lockTimeoutMs.toNat := rfl
  obtain ⟨r, b', hr, hclock⟩ := Backend.exists_answer hpatience ⟨.select byId true, [.uuid id]⟩
  rw [run_lockingRead (b.run_beginSession_of_fits h), Backend.run_fetchJob]
  refine ⟨r.orFail "get_job" oneJob, b', by rw [hr]; rfl, hclock, fun hrow hheld => ?_⟩
  -- the bound is reached before the row is free, so that the reply is the timeout
  rcases Backend.lockWait_of_patience hpatience with ⟨ms, hms, hgot, -⟩ | ⟨-, hwait⟩
  · exact absurd (hheld ms hgot) (Nat.not_lt.mpr hms)
  · rw [Backend.answer_present (b := opened) hrow, hwait] at hr
    obtain ⟨rfl, -⟩ := Prod.mk.inj (Option.some.inj hr)
    rfl

/-- Without a bound, a locking read waits for as long as others hold the row. -/
theorem run_lockingRead_of_zero (h : d.lockTimeoutMs.toNat = 0) {b : Backend}
    (hrow : b.rowsOf id ≠ []) :
    (b.held = none → b.run (d.lockingRead id) = none) ∧
      ∀ ms, b.held = some ms →
        ∃ r b', b.run (d.lockingRead id) = some (r, b') ∧ b'.clock = b.clock + ms := by
  -- a bound that the session may have had before is gone as well
  let opened : Backend := { b with patience := none }
  have hopen : b.run (d.perform .begin) = some (.ok 0, opened) := by
    unfold perform
    rw [h]
    exact b.run_beginSession_zero
  have hwait : opened.lockWait = b.held.map fun ms => (true, ms) :=
    Backend.lockWait_of_no_patience rfl
  rw [run_lockingRead hopen, Backend.run_fetchJob,
    Backend.answer_present (b := opened) hrow, hwait]
  constructor
  · intro hheld
    rw [hheld]
    rfl
  · intro ms hheld
    rw [hheld]
    exact ⟨_, _, rfl, rfl⟩

end DatabaseSettings

/-! ## every number -/

namespace Settings

/-- An address and a bound. -/
def withBound (n : UInt64) : Settings where
  database := { url := "postgres://localhost/jobs", lockTimeoutMs := n }

/-- The variables that say so. -/
def plain (n : Nat) : List (String × String) :=
  [("CIRRUS__DATABASE__URL", "postgres://localhost/jobs"),
    ("CIRRUS__DATABASE__LOCK_TIMEOUT_MS", toString n)]

theorem tree_plain {n : Nat} (h : 2 * n < UInt64.size) : Tree.ofVars "cirrus__" (plain n) =
    .branch [("database", .branch [("url", .leaf (.text "postgres://localhost/jobs")),
      ("lock_timeout_ms", .leaf (.int n))])] := by
  have hurl : Tree.pathOf? "cirrus__" "CIRRUS__DATABASE__URL" =
      some [.key "database", .key "url"] := by decide
  have hlock : Tree.pathOf? "cirrus__" "CIRRUS__DATABASE__LOCK_TIMEOUT_MS" =
      some [.key "database", .key "lock_timeout_ms"] := by decide
  have haddress : Scalar.ofText "postgres://localhost/jobs" =
      .text "postgres://localhost/jobs" := by decide
  rw [show plain n = ([] ++ [("CIRRUS__DATABASE__URL", "postgres://localhost/jobs")]) ++
    [("CIRRUS__DATABASE__LOCK_TIMEOUT_MS", toString n)] from rfl, Tree.ofVars_concat, hlock,
    Tree.ofVars_concat, hurl, haddress, Scalar.ofText_toString h]
  rfl

/-- No number of 63 bits is turned away. -/
theorem ofVars_plain {n : Nat} (h : 2 * n < UInt64.size) :
    ofVars "cirrus__" (plain n) = .ok (withBound (UInt64.ofNat n)) := by
  have hread : (Tree.leaf (.int n)).long? = some (UInt64.ofNat n) := by
    show ((Scalar.int n).count? UInt64.size).map UInt64.ofNat = _
    rw [Scalar.count?_natCast (by omega)]
    rfl
  have htree : ofTree? (Tree.ofVars "cirrus__" (plain n)) =
      some (withBound (UInt64.ofNat n)) := by
    rw [tree_plain h]
    simp [ofTree?, DatabaseSettings.ofTree?, Tree.required, Tree.field, Tree.child?, Tree.text?,
      Scalar.shown, hread, withBound]
  have hblank : Text.isBlank "postgres://localhost/jobs" = false := by decide
  have hfault : (withBound (UInt64.ofNat n)).fault? = none := by
    simp [fault?, withBound, hblank]
  unfold ofVars
  rw [htree]
  dsimp only
  rw [hfault]

end Settings

/-- **Settings bound the waits for locks exactly if the number fits.**  Let variables make settings.
The bound is what the last variable to concern it says, or else 5000.  Whatever a database replies,
it is told this bound behind every BEGIN, and no session is open without it.  If it is from 1 to
2147483647, a session opens, and a locking read in it ends by then, with an error if others hold the
row longer.  With zero a session opens all the same, and a locking read in it waits for as long as
others hold the row.  With a larger number no session opens. -/
theorem accepted_settings_bound_waits_if_they_fit {start : String}
    {vars : List (String × String)} {s : Settings} (h : Settings.ofVars start vars = .ok s) :
    let d := s.database
    let n := d.lockTimeoutMs.toNat
    ((∃ value, Tree.Settles start ["database", "lock_timeout_ms"] vars value ∧
        (Scalar.ofText value).count? UInt64.size = some n) ∨
      ((∀ value, ¬ Tree.Settles start ["database", "lock_timeout_ms"] vars value) ∧ n = 5000)) ∧
    (d.perform .begin).Keeps (Sql.opening n) Sql.Opened .idle ∧
    (Sql.Fits n → ∀ (b : Sql.Backend) id,
      b.run (d.perform .begin) = some (.ok 0, { b with patience := some n }) ∧
      ∃ r b', b.run (d.lockingRead id) = some (r, b') ∧ b'.clock ≤ b.clock + n ∧
        (b.rowsOf id ≠ [] → (∀ ms, b.held = some ms → n < ms) → r = .error .lockWaitTimeout)) ∧
    (n = 0 → ∀ (b : Sql.Backend) id, b.rowsOf id ≠ [] →
      b.run (d.perform .begin) = some (.ok 0, { b with patience := none }) ∧
      (b.held = none → b.run (d.lockingRead id) = none) ∧
      ∀ ms, b.held = some ms →
        ∃ r b', b.run (d.lockingRead id) = some (r, b') ∧ b'.clock = b.clock + ms) ∧
    (Sql.longestWait < n → ∀ b : Sql.Backend, ∃ e b',
      b.run (d.perform .begin) = some (.error (.storage e), b')) := by
  intro d n
  refine ⟨?_, Sql.keeps_opening n, fun hn b id => ?_, fun hn b id hrow => ?_, fun hn b => ?_⟩
  · rcases Settings.lockTimeout_of_ofVars h with hgiven | ⟨hnone, hdefault⟩
    · exact .inl hgiven
    · exact .inr ⟨hnone, congrArg UInt64.toNat hdefault⟩
  · exact ⟨b.run_beginSession_of_fits hn, DatabaseSettings.run_lockingRead_of_fits hn b id⟩
  · refine ⟨?_, DatabaseSettings.run_lockingRead_of_zero hn hrow⟩
    show b.run (Sql.beginSession n) = _
    rw [hn]
    exact b.run_beginSession_zero
  · exact ⟨_, _, b.run_beginSession_of_long hn⟩

/-- Others hold the one row of the table, and do not let go. -/
def Sql.Backend.stuck : Backend := { table := { rows := [Memory.sample.row] }, held := none }

theorem row_is_given_up_in_time :
    Settings.ofVars "cirrus__" (Settings.plain 250) = .ok (.withBound 250) ∧
      ∃ b, Sql.Backend.stuck.run
          ((Settings.withBound 250).database.lockingRead Memory.sample.id) =
        some (.error .lockWaitTimeout, b) ∧ b.clock ≤ 250 := by
  have hs : Settings.ofVars "cirrus__" (Settings.plain 250) = .ok (.withBound 250) :=
    Settings.ofVars_plain (by decide)
  obtain ⟨-, -, hfits, -⟩ := accepted_settings_bound_waits_if_they_fit hs
  obtain ⟨-, r, b, hr, hclock, hlong⟩ := hfits (by decide) .stuck Memory.sample.id
  obtain rfl := hlong (by decide) nofun
  exact ⟨hs, b, hr, hclock⟩

/-- Zero is accepted, and a locking read waits for ever.  So is 2147483648, and no session opens. -/
theorem accepted_settings_wait_for_ever :
    Settings.ofVars "cirrus__" (Settings.plain 0) = .ok (.withBound 0) ∧
      Sql.Backend.stuck.run ((Settings.withBound 0).database.perform .begin) =
        some (.ok 0, .stuck) ∧
      Sql.Backend.stuck.run
        ((Settings.withBound 0).database.lockingRead Memory.sample.id) = none ∧
      Settings.ofVars "cirrus__" (Settings.plain 2147483648) = .ok (.withBound 2147483648) ∧
      ∃ e, Sql.Backend.stuck.run ((Settings.withBound 2147483648).database.perform .begin) =
        some (.error (.storage e), .stuck) := by
  refine ⟨Settings.ofVars_plain (by decide), rfl, rfl, Settings.ofVars_plain (by decide), ?_⟩
  exact ⟨_, Sql.Backend.run_beginSession_of_long _ (by decide)⟩

end JobEngine
