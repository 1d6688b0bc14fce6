import IndexAudit.Text.Blank
import IndexAudit.Text.Lowercase

/-! Findings that are never reported. -/

namespace IndexAudit

/-- The names of what is never reported, in lower case and none of them empty. -/
structure Exclusions where
  tables : List String
  columns : List String
  /-- Tables and columns with a dot between them. -/
  findings : List String
deriving Repr, DecidableEq

namespace Exclusions

/-- Names as they are compared, without those that are blank. -/
def normalize (names : List String) : List String :=
  (names.map fun name => lower (trimString name)).filter (!·.isEmpty)

/-- The exclusions that lists of names ask for. -/
def ofNames (tables columns findings : List String) : Exclusions :=
  ⟨normalize tables, normalize columns, normalize findings⟩

/-- Whether a column of a table is never reported. -/
def excludes (exclusions : Exclusions) (table column : String) : Bool :=
  let table := lower table
  let column := lower column
  exclusions.tables.contains table || exclusions.columns.contains column ||
    exclusions.findings.contains (table ++ "." ++ column)

/-- Whether nothing is excluded. -/
def isEmpty (exclusions : Exclusions) : Bool :=
  exclusions.tables.isEmpty && exclusions.columns.isEmpty && exclusions.findings.isEmpty

end Exclusions

end IndexAudit
