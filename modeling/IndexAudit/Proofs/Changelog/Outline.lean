import IndexAudit.Changelog.OfXml
import IndexAudit.Changelog.OfYaml

/-!
Changelogs as they are meant, and how each one is written as a YAML and as an XML document.

The two ways to write a changelog declare the same columns and the same references.
-/

namespace IndexAudit

namespace Outline

/-- A truth value of a changelog, given as such or in a text. -/
inductive Flag where
  | truth (set : Bool)
  | text (text : String)
deriving Repr, DecidableEq

/-- What a changelog says of the keys of one column. -/
structure Constraints where
  isPrimaryKey : Option Flag
  isUnique : Option Flag
  primaryKeyName : Option String
  uniqueName : Option String
deriving Repr, DecidableEq

/-- A column that a change lists. -/
structure Column where
  name : Option String
  type : Option String
  constraints : Option Constraints
  /-- Whether YAML writes the column under a key of its own. -/
  isKeyed : Bool
deriving Repr, DecidableEq

end Outline

open Outline in
/-- One thing that a changelog says; whatever it leaves out is absent. -/
inductive Outline where
  | createIndex (table name : Option String) (isUnique : Option Flag) (columns : List Column)
  | addKey (isPrimary : Bool) (table columnNames name : Option String)
  | createTable (table : Option String) (columns : List Column)
  | addColumn (table : Option String) (columns : List Column)
  | sql (body : String)
  | reference (kind : ReferenceKind) (path : Option String) (isRelative : Option Flag)
  | rollback (body : String) (entries : List Outline)
  | changeSet (id author : Option String) (entries : List Outline)
deriving Repr

namespace Outline

/-! What the parts of a changelog mean. -/

/-- Whether a truth value is given and true. -/
def holds (flag : Option Flag) : Bool :=
  flag.any fun
    | .truth set => set
    | .text text => saysTrue text

/-- The constraints that are meant. -/
def Constraints.meant (constraints : Constraints) : ColumnConstraints where
  isPrimaryKey := holds constraints.isPrimaryKey
  isUnique := holds constraints.isUnique
  primaryKeyName := constraints.primaryKeyName
  uniqueName := constraints.uniqueName

/-- The column that is meant, if it has a name. -/
def Column.meant? (column : Column) : Option ChangeColumn :=
  column.name.map fun name => ⟨name, (column.constraints.map (·.meant)).toList⟩

mutual

/-- What an entry says that bears on indexes; a change to no table in particular says nothing. -/
def items : Outline → List ChangelogItem
  | .createIndex table name isUnique columns =>
    (table.map fun table =>
      .change (.createIndex table name (columns.map (·.name)) (holds isUnique))).toList
  | .addKey isPrimary table columnNames name =>
    (table.bind fun table => columnNames.map fun columnNames =>
      .change (.addKey isPrimary table columnNames name)).toList
  -- Only a column with a name makes it into the items of a table.
  | .createTable table columns =>
    (table.map fun table => .change (.createTable table (columns.filterMap (·.meant?)))).toList
  | .addColumn table columns =>
    (table.map fun table => .change (.addColumn table (columns.filterMap (·.meant?)))).toList
  | .sql body => [.text body]
  | .reference kind path isRelative =>
    (path.map fun path => .reference ⟨kind, path, holds isRelative⟩).toList
  | .rollback _ _ => []
  | .changeSet _ _ entries => itemsOf entries

/-- What the entries of a list say, in order. -/
def itemsOf : List Outline → List ChangelogItem
  | [] => []
  | entry :: entries => entry.items ++ itemsOf entries

end

/-! The texts of a changelog that are no SQL. -/

/-- The text that a truth value is given in. -/
def wordsOfFlag (flag : Option Flag) : List String :=
  flag.toList.flatMap fun
    | .truth _ => []
    | .text text => [text]

/-- The texts in the constraints of a column. -/
def Constraints.words (constraints : Constraints) : List String :=
  wordsOfFlag constraints.isPrimaryKey ++ wordsOfFlag constraints.isUnique ++
    constraints.primaryKeyName.toList ++ constraints.uniqueName.toList

/-- The texts in a column. -/
def Column.words (column : Column) : List String :=
  column.name.toList ++ column.type.toList ++ column.constraints.toList.flatMap (·.words)

mutual

/-- The texts in an entry that are no SQL, apart from what is undone. -/
def words : Outline → List String
  | .createIndex table name isUnique columns =>
    table.toList ++ name.toList ++ wordsOfFlag isUnique ++ columns.flatMap (·.words)
  | .addKey _ table columnNames name => table.toList ++ columnNames.toList ++ name.toList
  | .createTable table columns => table.toList ++ columns.flatMap (·.words)
  | .addColumn table columns => table.toList ++ columns.flatMap (·.words)
  | .sql _ => []
  | .reference _ path isRelative => path.toList ++ wordsOfFlag isRelative
  | .rollback _ _ => []
  | .changeSet id author entries => id.toList ++ author.toList ++ wordsOf entries

/-- The texts in the entries of a list that are no SQL, apart from what is undone. -/
def wordsOf : List Outline → List String
  | [] => []
  | entry :: entries => entry.words ++ wordsOf entries

end

/-! How changelogs are written. -/

/-- A YAML mapping of the keys that have a value. -/
def record (fields : List (String × Option YamlValue)) : YamlValue :=
  .mapping (fields.filterMap fun field => field.2.map fun value => (.string field.1, value))

/-- The attributes of an XML element that have a value. -/
def attributes (fields : List (String × Option String)) : List (String × String) :=
  fields.filterMap fun field => field.2.map fun value => (field.1, value)

/-- A text in YAML. -/
def yamlText (text : Option String) : Option YamlValue :=
  text.map .string

/-- A truth value in YAML, where it needs no text. -/
def yamlFlag (flag : Option Flag) : Option YamlValue :=
  flag.map fun
    | .truth set => .bool set
    | .text text => .string text

/-- A truth value in XML, where it is a text. -/
def xmlFlag (flag : Option Flag) : Option String :=
  flag.map fun
    | .truth true => "true"
    | .truth false => "false"
    | .text text => text

/-- The constraints of a column in YAML. -/
def Constraints.toYaml (constraints : Constraints) : YamlValue :=
  record [("primaryKey", yamlFlag constraints.isPrimaryKey),
    ("unique", yamlFlag constraints.isUnique),
    ("primaryKeyName", yamlText constraints.primaryKeyName),
    ("uniqueConstraintName", yamlText constraints.uniqueName)]

/-- The constraints of a column in XML. -/
def Constraints.toXml (constraints : Constraints) : XmlElement :=
  .element "constraints"
    (attributes [("primaryKey", xmlFlag constraints.isPrimaryKey),
      ("unique", xmlFlag constraints.isUnique), ("primaryKeyName", constraints.primaryKeyName),
      ("uniqueConstraintName", constraints.uniqueName)]) "" []

/-- What YAML says of a column. -/
def Column.body (column : Column) : YamlValue :=
  record [("name", yamlText column.name), ("type", yamlText column.type),
    ("constraints", column.constraints.map (·.toYaml))]

/-- A column in YAML. -/
def Column.toYaml (column : Column) : YamlValue :=
  if column.isKeyed then record [("column", some column.body)] else column.body

/-- A column in XML. -/
def Column.toXml (column : Column) : XmlElement :=
  .element "column" (attributes [("name", column.name), ("type", column.type)]) ""
    (column.constraints.map (·.toXml)).toList

/-- The columns of a change in YAML. -/
def yamlColumns (columns : List Column) : Option YamlValue :=
  some (.sequence (columns.map (·.toYaml)))

/-- The name of a key or unique constraint among the changes. -/
def keyTag (isPrimary : Bool) : String :=
  if isPrimary then "addPrimaryKey" else "addUniqueConstraint"

/-- The name of a reference among the changes. -/
def referenceTag : ReferenceKind → String
  | .include => "include"
  | .includeAll => "includeAll"
  | .sqlFile => "sqlFile"

/-- The name that the path of a reference is given under. -/
def pathTag : ReferenceKind → String
  | .include => "file"
  | .includeAll => "path"
  | .sqlFile => "path"

mutual

/-- An entry in YAML: a mapping with its name as the only key. -/
def toYaml : Outline → YamlValue
  | .createIndex table name isUnique columns =>
    record [("createIndex", some (record [("tableName", yamlText table),
      ("indexName", yamlText name), ("unique", yamlFlag isUnique),
      ("columns", yamlColumns columns)]))]
  | .addKey isPrimary table columnNames name =>
    record [(keyTag isPrimary, some (record [("tableName", yamlText table),
      ("columnNames", yamlText columnNames), ("constraintName", yamlText name)]))]
  | .createTable table columns =>
    record [("createTable", some (record [("tableName", yamlText table),
      ("columns", yamlColumns columns)]))]
  | .addColumn table columns =>
    record [("addColumn", some (record [("tableName", yamlText table),
      ("columns", yamlColumns columns)]))]
  -- The text of a statement stands one level further in than in the other format.
  | .sql body => record [("sql", some (record [("sql", some (.string body))]))]
  | .reference kind path isRelative =>
    record [(referenceTag kind, some (record [(pathTag kind, yamlText path),
      ("relativeToChangelogFile", yamlFlag isRelative)]))]
  | .rollback body entries =>
    record [("rollback", some (.sequence (.string body :: toYamlList entries)))]
  | .changeSet id author entries =>
    record [("changeSet", some (record [("id", yamlText id), ("author", yamlText author),
      ("changes", some (.sequence (toYamlList entries)))]))]

/-- The entries of a list in YAML. -/
def toYamlList : List Outline → List YamlValue
  | [] => []
  | entry :: entries => entry.toYaml :: toYamlList entries

end

mutual

/-- An entry in XML: an element of its name. -/
def toXml : Outline → XmlElement
  | .createIndex table name isUnique columns =>
    .element "createIndex"
      (attributes [("tableName", table), ("indexName", name), ("unique", xmlFlag isUnique)]) ""
      (columns.map (·.toXml))
  | .addKey isPrimary table columnNames name =>
    .element (keyTag isPrimary)
      (attributes [("tableName", table), ("columnNames", columnNames), ("constraintName", name)])
      "" []
  | .createTable table columns =>
    .element "createTable" (attributes [("tableName", table)]) "" (columns.map (·.toXml))
  | .addColumn table columns =>
    .element "addColumn" (attributes [("tableName", table)]) "" (columns.map (·.toXml))
  | .sql body => .element "sql" [] body []
  | .reference kind path isRelative =>
    .element (referenceTag kind)
      (attributes [(pathTag kind, path), ("relativeToChangelogFile", xmlFlag isRelative)]) "" []
  | .rollback body entries => .element "rollback" [] body (toXmlList entries)
  | .changeSet id author entries =>
    .element "changeSet" (attributes [("id", id), ("author", author)]) "" (toXmlList entries)

/-- The entries of a list in XML. -/
def toXmlList : List Outline → List XmlElement
  | [] => []
  | entry :: entries => entry.toXml :: toXmlList entries

end

/-- The YAML document of a changelog. -/
def yamlDocument (log : List Outline) : YamlValue :=
  record [("databaseChangeLog", some (.sequence (toYamlList log)))]

/-- The XML document of a changelog. -/
def xmlDocument (log : List Outline) : XmlElement :=
  .element "databaseChangeLog" [] "" (toXmlList log)

/-! What is declared does not hang on texts that define no index. -/

section Declared

variable {file : String}

/-- Lists of items declare the same if their parts do. -/
theorem ofItems_append {front front' back back' : List ChangelogItem}
    (sameFront : Scanned.ofItems file front = Scanned.ofItems file front')
    (sameBack : Scanned.ofItems file back = Scanned.ofItems file back') :
    Scanned.ofItems file (front ++ back) = Scanned.ofItems file (front' ++ back') := by
  -- Columns and references are each joined part by part.
  simp only [Scanned.ofItems, Scanned.mk.injEq] at sameFront sameBack ⊢
  simp [sameFront, sameBack]

/-- Texts that define no index declare nothing. -/
theorem ofItems_silent {words : List String}
    (silent : ∀ word ∈ words, IndexStatement.scan word.toList file = []) :
    Scanned.ofItems file (words.map .text) = Scanned.ofItems file [] := by
  -- A text adds the columns that its scan finds, of which there are none, and no reference.
  simpa [Scanned.ofItems, ChangelogItem.indexedColumns, ChangelogItem.reference?,
    List.flatMap_map, List.filterMap_map] using silent

/-- Texts that define no index add nothing behind what is said. -/
theorem ofItems_behind {items : List ChangelogItem} {words : List String}
    (silent : ∀ word ∈ words, IndexStatement.scan word.toList file = []) :
    Scanned.ofItems file (items ++ words.map .text) = Scanned.ofItems file items := by
  -- The texts declare as much as nothing does, put behind the same items.
  have same := ofItems_append (rfl : Scanned.ofItems file items = _) (ofItems_silent silent)
  rwa [List.append_nil] at same

end Declared

end Outline

end IndexAudit
