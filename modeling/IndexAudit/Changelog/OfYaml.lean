import IndexAudit.Changelog.Change
import IndexAudit.Yaml.Value

/-! The items of a changelog that is written as a YAML or JSON document. -/

namespace IndexAudit

namespace YamlValue

/-- The bodies of the columns that a change lists. -/
def columnBodies (change : YamlValue) : List YamlValue :=
  (((change.get? "columns").bind (·.items?)).getD []).map fun item =>
    -- An item is the column itself, or holds it under a key.
    (item.get? "column").getD item

/-- The constraints that a value holds. -/
def constraints (value : YamlValue) : ColumnConstraints where
  isPrimaryKey := value.flag "primaryKey"
  isUnique := value.flag "unique"
  primaryKeyName := value.textAt? "primaryKeyName"
  uniqueName := value.textAt? "uniqueConstraintName"

/-- The columns with a name that a change lists. -/
def changeColumns (change : YamlValue) : List ChangeColumn :=
  change.columnBodies.filterMap fun body => do
    let name ← body.textAt? "name"
    some ⟨name, ((body.get? "constraints").map constraints).toList⟩

/-- The reference that a value makes through the path under a key. -/
def reference? (kind : ReferenceKind) (pathKey : String) (value : YamlValue) :
    Option ChangelogItem := do
  let path ← value.textAt? pathKey
  some (.reference ⟨kind, path, value.flag "relativeToChangelogFile"⟩)

/-- The change that a value makes to the table it names. -/
def change? (value : YamlValue) (make : String → Option Change) : Option ChangelogItem := do
  let table ← value.textAt? "tableName"
  some (.change (← make table))

/-- The item that a value under a key is, if the key is that of a change or a reference. -/
def item? (key : String) (value : YamlValue) : Option ChangelogItem :=
  match key with
  | "createIndex" =>
    value.change? fun table =>
      some (.createIndex table (value.textAt? "indexName")
        (value.columnBodies.map (·.textAt? "name")) (value.flag "unique"))
  | "addUniqueConstraint" =>
    value.change? fun table =>
      (value.textAt? "columnNames").map
        (Change.addKey false table · (value.textAt? "constraintName"))
  | "addPrimaryKey" =>
    value.change? fun table =>
      (value.textAt? "columnNames").map
        (Change.addKey true table · (value.textAt? "constraintName"))
  | "createTable" => value.change? fun table => some (.createTable table value.changeColumns)
  | "addColumn" => value.change? fun table => some (.addColumn table value.changeColumns)
  | "include" => reference? .include "file" value
  | "includeAll" => reference? .includeAll "path" value
  | "sqlFile" => reference? .sqlFile "path" value
  | _ => none

mutual

/-- The items of a value, in order; what stands under `rollback` is undone and says nothing. -/
def changelogItems : YamlValue → List ChangelogItem
  | .string text => [.text text]
  | .sequence items => itemsOfSequence items
  | .mapping entries => itemsOfEntries entries
  | .tagged _ value => changelogItems value
  | _ => []

/-- The items of the values of a sequence. -/
def itemsOfSequence : List YamlValue → List ChangelogItem
  | [] => []
  | value :: rest => changelogItems value ++ itemsOfSequence rest

/-- The items of the entries of a mapping, each one's own before those inside it. -/
def itemsOfEntries : List (YamlValue × YamlValue) → List ChangelogItem
  | [] => []
  | (key, value) :: rest =>
    let here :=
      match key.string? with
      | none => changelogItems value
      | some "rollback" => []
      | some name => (item? name value).toList ++ changelogItems value
    here ++ itemsOfEntries rest

end

/-- What a document declares that is a changelog in a file; others are none. -/
def scanChangelog? (file : String) (document : YamlValue) : Option Scanned :=
  (document.get? "databaseChangeLog").map fun log => .ofItems file log.changelogItems

end YamlValue

end IndexAudit
