import JobEngine.Store.Query

/-!
# How a worker is set up

Times are in milliseconds.
-/

namespace JobEngine

structure WorkerConfig where
  name : String := "job-worker"
  /-- How many due jobs a poll asks for. -/
  pickSize : UInt64 := 10
  /-- How many units run at once; none counts as one. -/
  execSize : Nat := 10
  /-- How long one run of an action may take. -/
  execTimeout : Nat := 600000
  pollInterval : Nat := 2000
  /-- How long a shutdown waits for units before it aborts them. -/
  shutdownGrace : Nat := 10000
  order : SortOrder := .descending
deriving DecidableEq, Inhabited

/-- How many units may be alive at once.  No semaphore has more than `2 ^ 61 - 1` permits where words
have 64 bits: a worker that is set up for more breaks down before it has listed or run anything, and
has no run in what follows. -/
def WorkerConfig.permits (c : WorkerConfig) : Nat := max c.execSize 1

end JobEngine
