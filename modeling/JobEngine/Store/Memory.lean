import JobEngine.Store.Call
import JobEngine.Store.Table

/-!
# A store in memory

* `Memory`            committed rows, the lock table and the open sessions;
* `Memory.perform`    a call, all at once, or nothing if the row's lock is held by another;
* `Memory.needsLock`  whether a call has a lock to take;
* `Memory.lockedRows` how many rows are locked.

A session stages whole records under the row lock; a commit files them and lets the locks go.
Rows are never removed.
-/

namespace JobEngine

/-- What an open session has staged and which rows it holds. -/
structure Session where
  staged : Table JobId Job := []
  held : List JobId := []
deriving DecidableEq, Inhabited

structure Memory where
  rows : Table JobId Job := []
  locks : Table JobId SessionId := []
  sessions : Table SessionId Session := []
  nextSession : SessionId := 1
deriving DecidableEq, Inhabited

namespace Memory

/-- How a try for a row lock ends. -/
inductive Claim
  | held
  | absent
  | busy
deriving DecidableEq, Repr

def lockedRows (m : Memory) : Nat := m.locks.length

def session (m : Memory) (s : SessionId) : Session := (m.sessions.get? s).getD {}

def isOpen (m : Memory) (s : SessionId) : Bool := m.sessions.contains s

def openSession (m : Memory) : SessionId × Memory :=
  (m.nextSession,
    { m with sessions := m.sessions.set m.nextSession {}, nextSession := m.nextSession + 1 })

/-- One try for a row lock. -/
def acquire (m : Memory) (s : SessionId) (id : JobId) : Claim × Memory :=
  let own := m.session s
  if id ∈ own.held then (.held, m)
  else if !m.rows.contains id then (.absent, m)
  else if m.locks.contains id then (.busy, m)
  else
    (.held,
      { m with
        locks := m.locks.set id s
        sessions := m.sessions.set s { own with held := own.held ++ [id] } })

/-- The record as the session sees it. -/
def current (m : Memory) (s : SessionId) (id : JobId) : Option Job :=
  match (m.session s).staged.get? id with
  | some j => some j
  | none => m.rows.get? id

/-- A session's read. -/
def get (m : Memory) (s : SessionId) (id : JobId) (lock : Bool) :
    Option (Except StoreError (Option Job)) × Memory :=
  if lock then
    match m.acquire s id with
    | (.held, m) => (some (.ok (m.current s id)), m)
    | (.absent, m) => (some (.ok none), m)
    | (.busy, m) => (none, m)
  else (some (.ok (m.current s id)), m)

/-- A session's write. -/
def update (m : Memory) (s : SessionId) (id : JobId) (changes : Changes) :
    Option (Except StoreError Nat) × Memory :=
  match m.acquire s id with
  | (.busy, m) => (none, m)
  | (.absent, m) => (some (.ok 0), m)
  | (.held, m) =>
    match m.current s id with
    | none => (some (.ok 0), m)
    | some j =>
      match changes.apply j with
      | .error e => (some (.error (.constraint e.message)), m)
      | .ok j' =>
        let own := m.session s
        (some (.ok 1),
          { m with sessions := m.sessions.set s { own with staged := own.staged.set id j' } })

/-- The end of a session: its locks go. -/
def close (m : Memory) (s : SessionId) : Memory :=
  let own := m.session s
  { m with
    locks := m.locks.filter fun e => !(decide (e.1 ∈ own.held) && decide (e.2 = s))
    sessions := m.sessions.erase s }

/-- File what the session has staged, and end it. -/
def commit (m : Memory) (s : SessionId) : Memory :=
  { m with rows := (m.session s).staged.setAll m.rows }.close s

/-- A write in a session of its own; a write that fails leaves nothing. -/
def write (m : Memory) (id : JobId) (changes : Changes) :
    Option (Except StoreError Nat) × Memory :=
  let (s, opened) := m.openSession
  match opened.update s id changes with
  | (none, _) => (none, m)
  | (some (.ok n), m') => (some (.ok n), m'.commit s)
  | (some (.error e), m') => (some (.error e), m'.close s)

def insert (m : Memory) (j : Job) : Except StoreError JobId × Memory :=
  if m.rows.contains j.id then (.error (.alreadyExists j.id), m)
  else (.ok j.id, { m with rows := m.rows.set j.id j })

/-- A call at one moment; no answer means that the row's lock is held by another. -/
def perform (m : Memory) : (c : StoreCall) → Option c.Answer × Memory
  | .begin => let (s, m') := m.openSession; (some (.ok s), m')
  | .get s id lock => m.get s id lock
  | .update s id changes => m.update s id changes
  | .commit s => (some (.ok ()), m.commit s)
  | .rollback s => (some (.ok ()), m.close s)
  | .discard s => (some (), m.close s)
  | .read id => (some (.ok (m.rows.get? id)), m)
  | .write id changes => m.write id changes
  | .list q => (some (.ok (q.select m.rows.values)), m)
  | .insert j => let (a, m') := m.insert j; (some a, m')

/-- Whether a call has to take the lock of a row, which its session does not have yet. -/
def needsLock (m : Memory) : StoreCall → Bool
  | .get s id true | .update s id _ => decide (id ∉ (m.session s).held)
  | .write _ _ => true
  | _ => false

end Memory

end JobEngine
