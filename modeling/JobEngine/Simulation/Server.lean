import JobEngine.Sql.Store

/-!
# A scripted database

* `ScriptedServer`       the replies to come and the statements that came;
* `ScriptedServer.run`   a program of statements, answered from the script.

Each statement takes the next reply.  One that says nothing special finds no rows and changes one.
-/

namespace JobEngine

structure ScriptedServer where
  /-- What becomes of an attempt to connect. -/
  refusal : Option Sql.NoConnection := none
  replies : List (Option Sql.Reply) := []
  /-- The statements that came, the latest first. -/
  received : List Sql.Request := []

namespace ScriptedServer

/-- The reply where the script has nothing special. -/
def plain : Sql.Statement → Sql.Reply
  | .update _ _ => .affected 1
  | _ => .rows []

/-- The reply to a statement. -/
def reply (s : ScriptedServer) (r : Sql.Request) : Sql.Reply × ScriptedServer :=
  ((s.replies.headD none).getD (plain r.statement),
    { s with replies := s.replies.tail, received := r :: s.received })

def run (s : ScriptedServer) : Program Sql.Server α → Option α × ScriptedServer
  | .done a => (some a, s)
  | .crash => (none, s)
  | .call r k =>
    let (answer, s) := s.reply r
    s.run (k answer)

def connect (s : ScriptedServer) : Except StoreError Unit :=
  match s.refusal with
  | none => .ok ()
  | some why => .error why.error

/-- All statements that came, in their order. -/
def sent (s : ScriptedServer) : List Sql.Request := s.received.reverse

/-- The statements that came since there were `n`, in their order. -/
def since (s : ScriptedServer) (n : Nat) : List Sql.Request :=
  (s.received.take (s.received.length - n)).reverse

end ScriptedServer

end JobEngine
