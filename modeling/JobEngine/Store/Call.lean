import JobEngine.Job.Changes
import JobEngine.Store.Error
import JobEngine.Store.Query

/-!
# What one may ask of a store

* `StoreCall`          the calls: of a session, and those that stand alone;
* `StoreCall.Answer`   what each is answered.

A session's writes become visible together on commit, and it holds its row locks until it ends.
-/

namespace JobEngine

/-- The number of an open session. -/
abbrev SessionId := Nat

inductive StoreCall
  /-- Open a session. -/
  | begin
  /-- Read a row, taking its lock if asked to. -/
  | get (s : SessionId) (id : JobId) (lock : Bool)
  /-- Change a row, which takes its lock; the number of rows is answered. -/
  | update (s : SessionId) (id : JobId) (changes : Changes)
  | commit (s : SessionId)
  | rollback (s : SessionId)
  /-- Leave a session without a word. -/
  | discard (s : SessionId)
  /-- Read the committed row. -/
  | read (id : JobId)
  /-- Change a row at once. -/
  | write (id : JobId) (changes : Changes)
  | list (q : Query)
  | insert (job : Job)
deriving DecidableEq

namespace StoreCall

def Answer : StoreCall → Type
  | begin => Except StoreError SessionId
  | get _ _ _ => Except StoreError (Option Job)
  | update _ _ _ => Except StoreError Nat
  | commit _ => Except StoreError Unit
  | rollback _ => Except StoreError Unit
  | discard _ => Unit
  | read _ => Except StoreError (Option Job)
  | write _ _ => Except StoreError Nat
  | list _ => Except StoreError Page
  | insert _ => Except StoreError JobId

/-- The answer of a store that fails. -/
def refuse : (c : StoreCall) → StoreError → c.Answer
  | begin, e => .error e
  | get _ _ _, e => .error e
  | update _ _ _, e => .error e
  | commit _, e => .error e
  | rollback _, e => .error e
  | discard _, _ => ()
  | read _, e => .error e
  | write _ _, e => .error e
  | list _, e => .error e
  | insert _, e => .error e

end StoreCall

end JobEngine
