import IndexAudit.Module.Analysis

/-!
The analysis of modules by tasks, one for each of them, that run at the same time.

Nothing is known of the order in which tasks end. Each leaves its findings under the place of its
module in the list of modules, and they are put in the order of these places once no task runs.
-/

namespace IndexAudit

/-- The tasks that analyze the modules of a list, each under the place of its module. -/
structure AnalysisTasks where
  running : List (SourceModule × Nat)
  /-- What the other tasks have found, in the order in which they ended. -/
  ended : List (List MissingIndex × Nat)
deriving Repr, DecidableEq

namespace AnalysisTasks

/-- The tasks for a list of modules when they begin. -/
def start (modules : List SourceModule) : AnalysisTasks :=
  ⟨modules.zipIdx, []⟩

/-- What a task has found when it ends. -/
def outcome (tree : FileTree) (layout : ModuleLayout) (exclusions : Exclusions)
    (task : SourceModule × Nat) : List MissingIndex × Nat :=
  (task.1.missingIndexes tree layout exclusions, task.2)

/-- The task under a place ends, if it is still running. -/
def finish (tree : FileTree) (layout : ModuleLayout) (exclusions : Exclusions)
    (tasks : AnalysisTasks) (place : Nat) : AnalysisTasks where
  running := tasks.running.filter (·.2 != place)
  ended := tasks.ended ++
    (tasks.running.filter (·.2 == place)).map (outcome tree layout exclusions)

/-- The tasks under several places end, one after the other. -/
def run (tree : FileTree) (layout : ModuleLayout) (exclusions : Exclusions)
    (tasks : AnalysisTasks) (places : List Nat) : AnalysisTasks :=
  places.foldl (finish tree layout exclusions) tasks

/-- What the tasks that have ended found, in the order of the keys of the findings. -/
def findings (tasks : AnalysisTasks) : List MissingIndex :=
  MissingIndex.merge ((tasks.ended.mergeSort fun a b => a.2 ≤ b.2).map (·.1))

end AnalysisTasks

end IndexAudit
