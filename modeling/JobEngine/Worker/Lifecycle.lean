import JobEngine.Execution.Controller

/-!
# What a worker needs of the engine

* `Lifecycle`               two listings and two kinds of units, over any effects;
* `Controller.lifecycle`    those of the engine.
-/

namespace JobEngine

structure Lifecycle (E : Effects) where
  abandoned : Program E (Except JobError (List JobId))
  due : UInt64 → SortOrder → Program E (Except JobError (List JobId))
  clean : JobId → Program E (Except JobError Unit)
  run : JobId → Nat → Program E (Except JobError Unit)

/-- The engine as a worker sees it; `tag` marks the contexts of its units. -/
def Controller.lifecycle (c : Controller) (tag : String) : Lifecycle Engine where
  abandoned := Run.abandoned
  due := Run.due
  clean id := Run.cleanJob (.forJob tag id) id
  run id deadline := c.runJob (.forJob tag id) id deadline

end JobEngine
