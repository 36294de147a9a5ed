import JobEngine.Simulation.Server
import JobEngine.Simulation.Step

/-!
# Exchanges with a scripted database

* `Exchange`           a store with one connection, and perhaps a session that holds it;
* `Exchange.Move`      what is asked of the store;
* `Exchange.perform`   what comes of a list of moves, with the statements each of them sent.

While a session holds the connection, a call outside of it finds none that is free.
-/

namespace JobEngine

structure Exchange where
  server : ScriptedServer
  lockTimeout : Nat := 5000
  inSession : Bool := false
  closed : Bool := false

namespace Exchange

inductive Move
  | get (id : Checked JobId)
  | update (id : Checked JobId) (changes : Checked Changes)
  | list (query : Checked Query)
  | insert (job : Checked Job)
  | begin
  | txGet (id : Checked JobId) (lock : Bool)
  | txUpdate (id : Checked JobId) (changes : Checked Changes)
  | commit
  | rollback
  | migrate
  /-- Close the connections. -/
  | close
  | unclear (why : Trouble)

/-- Why no connection is to be had outside of the session. -/
def obstacle (e : Exchange) : Option Sql.Failure :=
  if e.closed then some .closed else if e.inSession then some .exhausted else none

/-- Run statements on the connection of the session. -/
def onSession (e : Exchange) (p : Program Sql.Server α) : Option α × Exchange :=
  let (a, server) := e.server.run p
  (a, { e with server })

/-- Run statements on a connection of their own. -/
def onPool (e : Exchange) (p : Program Sql.Server α) : Option α × Exchange :=
  match e.obstacle with
  | some f => (p.answered fun _ => Sql.Reply.failed f, e)
  | none => e.onSession p

/-- The report of a call that was answered. -/
def report (tell : α → Report) : Option (Except StoreError α) → Report
  | none => .trouble .panic
  | some (.error e) => .trouble (.store e)
  | some (.ok a) => tell a

/-- A call outside of the session. -/
def call (e : Exchange) (c : Checked StoreCall)
    (tell : (c : StoreCall) → Option c.Answer → Report) : Report × Exchange :=
  match c with
  | .error why => (.trouble why, e)
  | .ok c =>
    let (a, e) := e.onPool (Sql.perform e.lockTimeout c)
    (tell c a, e)

/-- A call of the session. -/
def sessionCall (e : Exchange) (c : Checked StoreCall)
    (tell : (c : StoreCall) → Option c.Answer → Report) : Report × Exchange :=
  if e.inSession then
    match c with
    | .error why => (.trouble why, e)
    | .ok c =>
      let (a, e) := e.onSession (Sql.perform e.lockTimeout c)
      (tell c a, e)
  else (.trouble (.badInput "no open session"), e)

def tellPage (p : Page) : Report :=
  match p.hasMore? with
  | some more => .page p more
  | none => .trouble .panic

/-- The report of a store's answer. -/
def tell : (c : StoreCall) → Option c.Answer → Report
  | .begin, a => report (fun _ => .ok) a
  | .get _ _ _, a => report .found a
  | .update _ _ _, a => report .affected a
  | .commit _, a => report (fun _ => .ok) a
  | .rollback _, a => report (fun _ => .ok) a
  | .discard _, _ => .ok
  | .read _, a => report .found a
  | .write _ _, a => report .affected a
  | .list _, a => report tellPage a
  | .insert _, a => report .filed a

/-- The session is over, whatever came of its end. -/
def leave (r : Report × Exchange) : Report × Exchange := (r.1, { r.2 with inSession := false })

/-- Open a session. -/
def enter (e : Exchange) : Report × Exchange :=
  let (a, e) := e.onPool (Sql.perform e.lockTimeout .begin)
  match a with
  | some (.ok _) => (.ok, { e with inSession := true })
  | a => (tell .begin a, e)

/-- The session has the number 0. -/
def step (e : Exchange) : Move → Report × Exchange
  | .get id => e.call (id.map .read) tell
  | .update id c => e.call (do pure (.write (← id) (← c))) tell
  | .list q => e.call (q.map .list) tell
  | .insert j => e.call (j.map .insert) tell
  | .begin => e.enter
  | .txGet id lock => e.sessionCall (id.map fun id => .get 0 id lock) tell
  | .txUpdate id c => e.sessionCall (do pure (.update 0 (← id) (← c))) tell
  | .commit => leave (e.sessionCall (.ok (.commit 0)) tell)
  | .rollback => leave (e.sessionCall (.ok (.rollback 0)) tell)
  | .migrate =>
    let (a, e) := e.onPool Sql.migrate
    (report (fun _ => .ok) a, e)
  | .close => (.ok, { e with closed := true })
  | .unclear why => (.trouble why, e)

/-- What comes of each move, and the statements that it sent. -/
def perform (e : Exchange) : List Move → List (Report × List Sql.Request)
  | [] => []
  | m :: rest =>
    let (r, e') := e.step m
    (r, e'.server.since e.server.received.length) :: e'.perform rest

end Exchange

end JobEngine
