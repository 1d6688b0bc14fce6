import IndexAudit.Changelog.Change
import IndexAudit.Xml.Element

/-! The items of a changelog that is written as an XML document. -/

namespace IndexAudit

namespace XmlElement

/-- The constraints that an element holds. -/
def constraints (element : XmlElement) : ColumnConstraints where
  isPrimaryKey := element.flag "primaryKey"
  isUnique := element.flag "unique"
  primaryKeyName := element.attribute? "primaryKeyName"
  uniqueName := element.attribute? "uniqueConstraintName"

/-- The columns with a name that a change lists. -/
def changeColumns (change : XmlElement) : List ChangeColumn :=
  (change.childrenNamed "column").filterMap fun column => do
    let name ← column.attribute? "name"
    some ⟨name, (column.childrenNamed "constraints").map constraints⟩

/-- The reference that an element makes through the path in an attribute. -/
def reference? (kind : ReferenceKind) (pathKey : String) (element : XmlElement) :
    Option ChangelogItem := do
  let path ← element.attribute? pathKey
  some (.reference ⟨kind, path, element.flag "relativeToChangelogFile"⟩)

/-- The change that an element makes to the table it names. -/
def change? (element : XmlElement) (make : String → Option Change) : Option ChangelogItem := do
  let table ← element.attribute? "tableName"
  some (.change (← make table))

/-- The item that an element is, if its name is that of a change or a reference. -/
def item? (element : XmlElement) : Option ChangelogItem :=
  match element.name with
  | "createIndex" =>
    element.change? fun table =>
      some (.createIndex table (element.attribute? "indexName")
        ((element.childrenNamed "column").map (·.attribute? "name")) (element.flag "unique"))
  | "addUniqueConstraint" =>
    element.change? fun table =>
      (element.attribute? "columnNames").map
        (Change.addKey false table · (element.attribute? "constraintName"))
  | "addPrimaryKey" =>
    element.change? fun table =>
      (element.attribute? "columnNames").map
        (Change.addKey true table · (element.attribute? "constraintName"))
  | "createTable" => element.change? fun table => some (.createTable table element.changeColumns)
  | "addColumn" => element.change? fun table => some (.addColumn table element.changeColumns)
  | "include" => reference? .include "file" element
  | "includeAll" => reference? .includeAll "path" element
  | "sqlFile" => reference? .sqlFile "path" element
  | _ => none

mutual

/-- The items of an element: its own, its text, and those of its children. -/
def changelogItems : XmlElement → List ChangelogItem
  | .element name attributes text children =>
    -- A change that is undone says nothing of the indexes there are.
    if name = "rollback" then []
    else
      (item? (.element name attributes text children)).toList ++ .text text ::
        itemsOfElements children

/-- The items of elements, in order. -/
def itemsOfElements : List XmlElement → List ChangelogItem
  | [] => []
  | first :: rest => changelogItems first ++ itemsOfElements rest

end

/-- What a document declares that is a changelog in a file; others are none. -/
def scanChangelog? (file : String) (document : XmlElement) : Option Scanned :=
  if document.name = "databaseChangeLog" then some (.ofItems file document.changelogItems)
  else none

end XmlElement

end IndexAudit
