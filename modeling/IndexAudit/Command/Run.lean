import IndexAudit.Command.Project
import IndexAudit.Command.Request
import IndexAudit.Report.Check
import IndexAudit.Report.Program

/-! Commands run on a file tree. -/

namespace IndexAudit

/-- What a command comes to. -/
structure Outcome where
  /-- What is printed, whether or not the command fails. -/
  output : String
  /-- The files after the command. -/
  tree : FileTree
  error : Option CommandError
deriving Repr, DecidableEq

namespace CheckRequest

/--
The baseline file to compare with: the one that is asked for, else the one that is configured, else
the default one, if it exists.
-/
def baselineFile? (tree : FileTree) (settings : Settings) (request : CheckRequest) :
    Option String :=
  match request.baseline with
  | some path => some path
  | none =>
    let path := settings.baselineFile request.root
    if settings.baselinePath.isSome || tree.existsAt path then some path else none

/-- The findings beside those that a baseline file accepts. -/
def compare (tree : FileTree) (missing : List MissingIndex) (path : String) :
    Except CommandError (String × BaselineComparison) :=
  match Baseline.load tree path with
  | .ok accepted => .ok (path, Baseline.compare missing accepted)
  | .error error => .error (.baseline error)

/-- What a check finds in a project with given settings. -/
def report (tree : FileTree) (settings : Settings) (request : CheckRequest) :
    Except CommandError CheckReport := do
  let (modules, missing) ← Project.analyze tree settings request.root
  match request.baselineFile? tree settings with
  | none => return ⟨request.root, modules, missing, none⟩
  | some path => return ⟨request.root, modules, missing, some (← compare tree missing path)⟩

/-- A report in the format that is asked for. -/
def output (request : CheckRequest) (report : CheckReport) : String :=
  match request.format with
  | .readable => report.lines
  | .json => report.document.indented ++ "\n"

/-- The failure of a check whose findings count against the project. -/
def failure? (settings : Settings) (request : CheckRequest) (report : CheckReport) :
    Option CommandError :=
  if 0 < report.findings ∧ settings.failsOnFindings ∧ request.mayFail then
    some (.findings report.findings)
  else none

/-- Checks a project. -/
def run (tree : FileTree) (environment : Environment) (request : CheckRequest) : Outcome :=
  let result := do
    let settings ← Project.settings tree environment request.root request.config
    return (settings, ← report tree settings request)
  match result with
  | .error error => ⟨"", tree, some error⟩
  | .ok (settings, report) => ⟨request.output report, tree, request.failure? settings report⟩

end CheckRequest

namespace RecordRequest

/-- What is printed before anything is analyzed. -/
def preamble : String :=
  Report.title "Record Baseline"

/-- What is printed after findings are recorded. -/
def summary (modules issues : Nat) (path : String) : String :=
  Report.count "Modules" modules ++ Report.count "Issues" issues ++ Report.entry "File" path ++
    Report.gap ++
    Report.success ("Recorded " ++ toString issues ++ " accepted finding(s) in " ++ path)

/-- The file that findings are recorded in. -/
def file (settings : Settings) (request : RecordRequest) : String :=
  request.output.getD (settings.baselineFile request.root)

/-- Records the findings of a project as accepted, at a given time. -/
def run (tree : FileTree) (environment : Environment) (time : String) (request : RecordRequest) :
    Outcome :=
  match Project.settings tree environment request.root request.config with
  | .error error => ⟨"", tree, some error⟩
  | .ok settings =>
    match Project.analyze tree settings request.root with
    | .error error => ⟨preamble, tree, some error⟩
    | .ok (modules, missing) =>
      let path := request.file settings
      match Baseline.persist tree path time (missing.map MissingIndex.issue) with
      | (written, .error error) => ⟨preamble, written, some (.baseline error)⟩
      | (written, .ok ()) => ⟨preamble ++ summary modules missing.length path, written, none⟩

end RecordRequest

/-- Runs a command at a given time. -/
def Command.run (tree : FileTree) (environment : Environment) (time : String) : Command → Outcome
  | .check request => request.run tree environment
  | .record request => request.run tree environment time
  | .version => ⟨Program.versionReport, tree, none⟩

end IndexAudit
