import IndexAudit.Baseline.File
import IndexAudit.Report.Line

/-! What a check has found, as lines for a reader and as a document. -/

namespace IndexAudit

/-- What a check has found. -/
structure CheckReport where
  root : String
  /-- How many modules were analyzed. -/
  modules : Nat
  missing : List MissingIndex
  /-- The baseline file, and what the findings come to beside it. -/
  baseline : Option (String × BaselineComparison)
deriving Repr, DecidableEq

namespace MissingIndex

/-- A finding as a document. -/
def document (finding : MissingIndex) : JsonValue :=
  .ofMembers [("serviceName", .ofString finding.service), ("tableName", .ofString finding.table),
    ("columnName", .ofString finding.column), ("querySource", .ofString finding.source),
    ("repositoryFile", .ofString finding.file), ("lineNumber", .ofNat finding.line),
    ("queryType", .ofString finding.queryType.name)]

/-- A finding in one line, its column in a colour. -/
def description (ink : Ink) (finding : MissingIndex) : String :=
  finding.service ++ ": " ++ ink.paint (finding.table ++ "." ++ finding.column) ++ " (" ++
    finding.source ++ ", " ++ finding.file ++ ":" ++ toString finding.line ++ ", " ++
    finding.queryType.label ++ ")"

end MissingIndex

/-- An accepted finding in one line. -/
def Issue.description (issue : Issue) : String :=
  Ink.green.paint (issue.service ++ ": " ++ issue.table ++ "." ++ issue.column)

/-- A comparison as a document. -/
def BaselineComparison.document (comparison : BaselineComparison) : JsonValue :=
  .ofMembers [("current", .array (comparison.current.map MissingIndex.document)),
    ("newIssues", .array (comparison.newIssues.map MissingIndex.document)),
    ("existingIssues", .array (comparison.existingIssues.map MissingIndex.document)),
    ("resolvedIssues", .array (comparison.resolvedIssues.map Issue.document))]

namespace CheckReport

/-- How many of the findings count against the project: those that were not accepted before. -/
def findings (report : CheckReport) : Nat :=
  match report.baseline with
  | none => report.missing.length
  | some (_, comparison) => comparison.newIssues.length

/-- A report as a document. -/
def document (report : CheckReport) : JsonValue :=
  let compared := report.baseline.toList.map fun baseline => ("baseline", baseline.2.document)
  .ofMembers (("modules", .ofNat report.modules) ::
    ("missing", .array (report.missing.map MissingIndex.document)) :: compared)

/-- A part of a report with a heading, left out if it has no items. -/
def part (heading : String) (items : List String) : String :=
  if items.isEmpty then ""
  else Report.heading heading ++ String.join (items.map Report.item) ++ Report.gap

/-- What is told about findings without a baseline. -/
def listing (missing : List MissingIndex) : String :=
  if missing.isEmpty then Report.success "No missing indexes found"
  else
    part "Missing indexes" (missing.map (MissingIndex.description .red)) ++
      Report.warning (toString missing.length ++ " column(s) without a usable index")

/-- What is told about findings beside a baseline. -/
def contrast (comparison : BaselineComparison) : String :=
  let added := comparison.newIssues.length
  part "New" (comparison.newIssues.map (MissingIndex.description .red)) ++
    part "Accepted" (comparison.existingIssues.map (MissingIndex.description .yellow)) ++
    part "Resolved" (comparison.resolvedIssues.map Issue.description) ++
    Report.count "New" added ++ Report.count "Accepted" comparison.existingIssues.length ++
    Report.count "Resolved" comparison.resolvedIssues.length ++ Report.gap ++
    if added = 0 then Report.success "No new missing indexes"
    else Report.warning (toString added ++ " new column(s) without a usable index")

/-- What is told about the findings of a project that has modules. -/
def outcome (report : CheckReport) : String :=
  match report.baseline with
  | none => listing report.missing
  | some (_, comparison) => contrast comparison

/-- What is told about the project, in front of its findings. -/
def preamble (report : CheckReport) : String :=
  let files := report.baseline.toList.map fun baseline => Report.entry "Baseline" baseline.1
  Report.title "Index Check" ++ Report.entry "Root" report.root ++
    Report.count "Modules" report.modules ++ String.join files ++ Report.gap

/-- A report as lines for a reader. -/
def lines (report : CheckReport) : String :=
  report.preamble ++
    if report.modules = 0 then Report.warning "No modules found under the project root"
    else report.outcome

end CheckReport

end IndexAudit
