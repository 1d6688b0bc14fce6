import IndexAudit.Command.Error
import IndexAudit.Module.Discovery
import IndexAudit.Module.Tasks

/-! The settings, the modules and the findings of a project. -/

namespace IndexAudit

namespace Project

/-- The settings of a project. -/
def settings (tree : FileTree) (environment : Environment) (root : String)
    (config : Option String) : Except CommandError Settings :=
  match Settings.load tree environment root config with
  | .ok settings => .ok settings
  | .error error => .error (.settings error)

/-- The modules of a project with given settings. -/
def modules (tree : FileTree) (settings : Settings) (root : String) :
    Except CommandError (List SourceModule) :=
  match SourceModule.discover? tree settings root with
  | some modules => .ok modules
  | none => .error (.notDirectory root)

/-- The number of modules of a project, and the findings on them. -/
def analyze (tree : FileTree) (settings : Settings) (root : String) :
    Except CommandError (Nat × List MissingIndex) := do
  let found ← modules tree settings root
  -- The tasks may end in any order; here they do in that of the modules.
  let tasks := (AnalysisTasks.start found).run tree settings.layout settings.exclusions
    (List.range found.length)
  return (found.length, tasks.findings)

end Project

end IndexAudit
