import IndexAudit.Finding
import IndexAudit.Keyed

/-! Findings compared with those that were accepted before. -/

namespace IndexAudit

/-- The findings of a run, parted by whether they were accepted before. -/
structure BaselineComparison where
  /-- All findings, in the order of their keys. -/
  current : List MissingIndex
  newIssues : List MissingIndex
  existingIssues : List MissingIndex
  /-- What was accepted and is not found any more. -/
  resolvedIssues : List Issue
deriving Repr, DecidableEq

namespace Baseline

/-- The first issue of each key, in the order of their keys. -/
def distinct (issues : List Issue) : List Issue :=
  Keyed.sort (·.key.parts) (Keyed.firsts Issue.key issues)

/-- What findings come to beside the issues that were accepted. -/
def compare (current : List MissingIndex) (accepted : List Issue) : BaselineComparison :=
  -- The sort is stable, so findings of one key stay in the order they come in.
  let sorted := Keyed.sort (·.key.parts) current
  let acceptedKeys := accepted.map (·.key)
  let foundKeys := current.map (·.key)
  { current := sorted
    newIssues := sorted.filter fun finding => !acceptedKeys.contains finding.key
    existingIssues := sorted.filter fun finding => acceptedKeys.contains finding.key
    resolvedIssues := distinct (accepted.filter fun issue => !foundKeys.contains issue.key) }

end Baseline

end IndexAudit
