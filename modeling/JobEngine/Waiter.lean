/-!
# Waiting for something elsewhere

A waiter fetches a snapshot again and again, with a pause behind each fetch, until one will do or
too much time has passed.  Times are in milliseconds from the start of the wait.

* `Waiter`              the pauses and the ceiling;
* `Fetch`               what a fetch gives, and how long it takes;
* `Waiter.waitObject`   wait for a snapshot that is accepted;
* `Waiter.waitDeleted`  wait until there is nothing to fetch;
* `Wait.Report`         the end of a wait, with its fetches and pauses;
* `Wait.Standing`       how far a wait has come.

The pauses may be zero, so a wait is followed for a given number of rounds.  Fetches are counted with
32 bits.  The program is taken as built with overflow checks, as for the retry schedule: a wait
breaks down instead of a fetch that cannot be counted, and its counter does not wrap around.
-/

namespace JobEngine

structure Waiter where
  /-- The pause behind the `n`-th fetch. -/
  patience : Nat → Nat := fun _ => 1000
  timeout : Nat := 86400000

/-- One fetch. -/
structure Fetch (τ ε : Type) where
  result : Except ε τ
  millis : Nat := 0

inductive WaitError (ε : Type)
  | interrupted
  /-- Too much time has passed; the fetches are those that were counted. -/
  | timedOut (elapsed fetches : Nat)
  | notFound (source : ε)
  | failed (source : ε)
deriving DecidableEq, Repr

namespace WaitError

def kind : WaitError ε → String
  | interrupted => "Interrupted"
  | timedOut _ _ => "TimedOut"
  | notFound _ => "NotFound"
  | failed _ => "Failed"

def message (text : ε → String) : WaitError ε → String
  | interrupted => "wait interrupted"
  | timedOut elapsed n => s!"condition not met after {elapsed / 1000}s ({n} fetches)"
  | notFound e => "object not found: " ++ text e
  | failed e => "fetch failed: " ++ text e

end WaitError

namespace Wait

/-- What has been done so far; the latest comes first in both lists. -/
structure Progress where
  now : Nat := 0
  fetches : Nat := 0
  /-- When each fetch began. -/
  starts : List Nat := []
  /-- The pauses made. -/
  pauses : List Nat := []

/-- The end of a wait. -/
structure Report (ρ : Type) where
  outcome : ρ
  now : Nat
  fetches : Nat
  starts : List Nat
  pauses : List Nat

/-- How a wait stands after some rounds. -/
inductive Standing (ρ : Type)
  | going
  /-- There would be more fetches than can be counted. -/
  | brokeDown
  | ended (r : Report ρ)

namespace Progress

def report (p : Progress) (outcome : ρ) : Report ρ :=
  ⟨outcome, p.now, p.fetches, p.starts.reverse, p.pauses.reverse⟩

/-- One more fetch cannot be counted. -/
def full (p : Progress) : Bool := UInt32.size ≤ p.fetches + 1

/-- The state behind one more fetch. -/
def fetched (p : Progress) (millis : Nat) : Progress :=
  { p with now := p.now + millis, fetches := p.fetches + 1, starts := p.now :: p.starts }

/-- The state behind a pause. -/
def paused (p : Progress) (millis : Nat) : Progress :=
  { p with now := p.now + millis, pauses := millis :: p.pauses }

end Progress

end Wait

namespace Waiter

/-- A ceiling of zero, or none, is the ceiling of a day. -/
def withTimeout (w : Waiter) : Option Nat → Waiter
  | some (n + 1) => { w with timeout := n + 1 }
  | _ => { w with timeout := 86400000 }

open Wait

/-- Fetch until a snapshot is accepted.  A failed fetch ends the wait; else acceptance is looked at
first, then the interrupt, then the time. -/
def waitObject (w : Waiter) (script : Nat → Fetch τ ε) (gone : ε → Bool)
    (accept interrupt : τ → Bool) : Nat → Progress → Standing (Except (WaitError ε) τ)
  | 0, _ => .going
  | rounds + 1, p =>
    if p.full then .brokeDown
    else
      let f := script (p.fetches + 1)
      let p := p.fetched f.millis
      match f.result with
      | .error e =>
        .ended (p.report (.error (if gone e then .notFound e else .failed e)))
      | .ok a =>
        if accept a then .ended (p.report (.ok a))
        else if interrupt a then .ended (p.report (.error .interrupted))
        else if w.timeout < p.now then .ended (p.report (.error (.timedOut p.now p.fetches)))
        else waitObject w script gone accept interrupt rounds (p.paused (w.patience p.fetches))

/-- Fetch until there is nothing.  The time is looked at before each fetch, and no other failure
ends the wait. -/
def waitDeleted (w : Waiter) (script : Nat → Fetch τ ε) (gone : ε → Bool) :
    Nat → Progress → Standing (Except (WaitError ε) Unit)
  | 0, _ => .going
  | rounds + 1, p =>
    if w.timeout < p.now then .ended (p.report (.error (.timedOut p.now p.fetches)))
    else if p.full then .brokeDown
    else
      let f := script (p.fetches + 1)
      let p := p.fetched f.millis
      let ended := match f.result with
        | .error e => gone e
        | .ok _ => false
      if ended then .ended (p.report (.ok ()))
      else waitDeleted w script gone rounds (p.paused (w.patience p.fetches))

/-- A span of time: whole seconds, or seconds with a fraction, or milliseconds below one second. -/
def spanText (millis : Nat) : String :=
  let fraction (n : Nat) : String :=
    let ds := Nat.toDigits 10 (1000 + n)
    String.ofList ((ds.drop 1).reverse.dropWhile (· == '0')).reverse
  if millis = 0 then "0ns"
  else if millis < 1000 then s!"{millis}ms"
  else if millis % 1000 = 0 then s!"{millis / 1000}s"
  else s!"{millis / 1000}." ++ fraction (millis % 1000) ++ "s"

def display (w : Waiter) : String :=
  "Waiter \x7b timeout: " ++ spanText w.timeout ++ ", .. \x7d"

end Waiter

end JobEngine
