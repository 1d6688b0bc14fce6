import IndexAudit.Report.Line

/-! What the program tells about itself. -/

namespace IndexAudit

namespace Program

/-- The name of the program. -/
def name : String := "idxlint"

/-- The version of the program and of all its parts. -/
def version : String := "0.1.0"

/-- The parts that the program is made of. -/
def components : List String :=
  ["idxlint-core", "idxlint-cli"]

/-- The version of the program, with those of its parts. -/
def versionReport : String :=
  Report.title name ++ Report.entry "Version" version ++ Report.entry "Binary" name ++
    Report.entry "Build" "release" ++ Report.gap ++ Report.heading "Components" ++
    String.join (components.map fun part => Report.entry part version) ++ Report.gap ++
    Report.remark "Scans JPA repositories and Liquibase changelogs for unindexed columns"

end Program

end IndexAudit
