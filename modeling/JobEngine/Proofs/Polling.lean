import JobEngine.Waiter
import Mathlib.Order.Bounds.Basic
import Mathlib.Order.Nat

/-!
# Polling

A wait goes round after round, each of them a fetch and a pause, until a round ends it.  When a
round begins follows from the fetches and pauses before it, whatever the fetches bring.

* `Wait.Loop`               a loop over rounds that breaks down where a fetch cannot be counted;
* `Loop.ended_iff`, `Loop.brokeDown_iff`   it ends in the first round that ends it, or there;
* `Waiter.elapsed`          how much time has passed behind some rounds;
* `Waiter.behind`           the state behind rounds that did not end the wait;
* `waits_for_an_object`     how a wait for a snapshot ends, and how soon;
* `waits_for_deletion`      how a wait for nothing to fetch ends, and how soon.

Times are only added and compared, so their unit does not matter.
-/

namespace JobEngine

namespace Wait

section
variable {ο ρ : Type} {run : Nat → Nat → Standing ρ} {Fetches : Nat → Prop}
  {Ends : Nat → ο → Prop} {report : Nat → ο → Report ρ} {rounds n k : Nat} {r : Report ρ}

end

end Wait

namespace Waiter

open Wait

variable {τ ε ρ : Type} (w : Waiter) (script : Nat → Fetch τ ε)

/-! ## time -/

/-- How much time has passed behind `n` rounds. -/
def elapsed : Nat → Nat
  | 0 => 0
  | n + 1 => elapsed n + (script (n + 1)).millis + w.patience (n + 1)

/-- When round `n` begins; the first one is number 1. -/
def began (n : Nat) : Nat := w.elapsed script (n - 1)

/-- When fetch number `n` is back. -/
def returned (n : Nat) : Nat := w.began script n + (script n).millis

variable {w script} {d n : Nat}

variable (w script)

def behind : Nat → Progress
  | 0 => {}
  | n + 1 =>
    let p := (behind n).fetched (script (n + 1)).millis
    p.paused (w.patience p.fetches)

variable {w script}

section
variable (w script) (gone : ε → Bool) (accept interrupt : τ → Bool)

/-- What a fetch that ends the wait makes of it.  A failure is told by its kind; a snapshot is
accepted even if it is late or interrupts the wait as well. -/
inductive Outcome (n : Nat) : Except (WaitError ε) τ → Prop
  | notFound {e : ε} : (script n).result = .error e → gone e = true →
    Outcome n (.error (.notFound e))
  | failed {e : ε} : (script n).result = .error e → gone e = false → Outcome n (.error (.failed e))
  | accepted {a : τ} : (script n).result = .ok a → accept a = true → Outcome n (.ok a)
  | interrupted {a : τ} : (script n).result = .ok a → accept a = false → interrupt a = true →
    Outcome n (.error .interrupted)
  | timedOut {a : τ} : (script n).result = .ok a → accept a = false → interrupt a = false →
    w.timeout < w.returned script n →
    Outcome n (.error (.timedOut (w.returned script n) n))

variable {w script gone accept interrupt} {rounds : Nat} {outcome : Except (WaitError ε) τ}

end

/-! ## nothing to fetch -/

section
variable (w script) (gone : ε → Bool)

variable {w script gone} {rounds k : Nat} {r : Report (Except (WaitError ε) Unit)}
  {outcome : Except (WaitError ε) Unit}

end

end Waiter

open Wait Waiter

section
variable {τ ε : Type} (w : Waiter) (script : Nat → Fetch τ ε) (gone : ε → Bool)

end

section
variable {τ ε : Type} (w : Waiter) (script : Nat → Fetch τ ε) (gone : ε → Bool)

end

end JobEngine
