import IndexAudit.Query.Column
import IndexAudit.Text.Lowercase

/-! Columns that queries use and that no index leads, and what identifies them. -/

namespace IndexAudit

/-- What identifies a finding: its service, table and column in lower case. -/
structure IssueKey where
  service : String
  table : String
  column : String
deriving Repr, DecidableEq

/-- The parts of a key, the most significant first. -/
def IssueKey.parts (key : IssueKey) : List String :=
  [key.service, key.table, key.column]

/-- The key of a column of a service's table. -/
def IssueKey.ofNames (service table column : String) : IssueKey :=
  ⟨lower service, lower table, lower column⟩

/-- A column that a query uses and that no index leads. -/
structure MissingIndex where
  service : String
  table : String
  column : String
  /-- The repository and method of the query. -/
  source : String
  file : String
  line : Nat
  queryType : QueryType
deriving Repr, DecidableEq

/-- A finding without its circumstances, as it is accepted. -/
structure Issue where
  service : String
  table : String
  column : String
deriving Repr, DecidableEq

/-- The key of an accepted finding. -/
def Issue.key (issue : Issue) : IssueKey :=
  .ofNames issue.service issue.table issue.column

namespace MissingIndex

/-- The key of a finding. -/
def key (finding : MissingIndex) : IssueKey :=
  .ofNames finding.service finding.table finding.column

/-- A finding without its circumstances. -/
def issue (finding : MissingIndex) : Issue :=
  ⟨finding.service, finding.table, finding.column⟩

end MissingIndex

end IndexAudit
