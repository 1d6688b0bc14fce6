import IndexAudit.Naming
import IndexAudit.Sql.IndexStatement

/-!
The changes of a changelog that bear on indexes, in whatever format it is written.

A document comes down to a list of items: changes, references to other files, and texts that may
hold SQL.
-/

namespace IndexAudit

/-- What a changelog says of one column's own key or uniqueness. -/
structure ColumnConstraints where
  isPrimaryKey : Bool
  isUnique : Bool
  primaryKeyName : Option String
  uniqueName : Option String
deriving Repr, DecidableEq

/-- A column of a table that a change makes or extends. -/
structure ChangeColumn where
  name : String
  constraints : List ColumnConstraints
deriving Repr, DecidableEq

/-- A change to the indexes of a table; names are as written. -/
inductive Change where
  | createIndex (table : String) (name : Option String) (columns : List (Option String))
    (isUnique : Bool)
  /-- A primary key or unique constraint over a list of columns in one text. -/
  | addKey (isPrimary : Bool) (table columnNames : String) (name : Option String)
  | createTable (table : String) (columns : List ChangeColumn)
  | addColumn (table : String) (columns : List ChangeColumn)
deriving Repr, DecidableEq

/-- How a changelog refers to other files. -/
inductive ReferenceKind where
  | include
  | includeAll
  | sqlFile
deriving Repr, DecidableEq

/-- A reference of a changelog to a file, or to all files of a directory. -/
structure Reference where
  kind : ReferenceKind
  path : String
  /-- Whether the path starts at the directory of the changelog itself. -/
  isRelative : Bool
deriving Repr, DecidableEq

/-- One thing a changelog says that bears on indexes. -/
inductive ChangelogItem where
  | change (change : Change)
  | reference (reference : Reference)
  /-- A text that may hold SQL statements. -/
  | text (text : String)
deriving Repr, DecidableEq

/-- What one changelog declares itself, and the files it refers to. -/
structure Scanned where
  columns : List IndexedColumn
  references : List Reference
deriving Repr, DecidableEq

namespace Change

/-- The columns that a text lists between commas; an empty one takes a place all the same. -/
def listedColumns (names : String) : List (Option String) :=
  (names.toList.splitOn ',').map fun name =>
    let clean := cleanName (String.ofList name)
    if clean.isEmpty then none else some clean

/-- The key that a column of a new table has, of which a primary key comes first. -/
def newColumnKey? (table : String) (column : ChangeColumn) : Option IndexDefinition := do
  let name := cleanName column.name
  -- Of a new column only the first constraints count, whether or not they are unique.
  let constraints ← column.constraints.head?
  if constraints.isPrimaryKey then
    let key := constraints.primaryKeyName.getD (IndexDefinition.primaryKeyName table)
    some (.ofUniqueColumn key table name)
  else if constraints.isUnique then
    let key := constraints.uniqueName.getD (IndexDefinition.uniqueColumnName table name)
    some (.ofUniqueColumn key table name)
  else none

/-- The unique constraint that a column added to a table has. -/
def addedColumnKey? (table : String) (column : ChangeColumn) : Option IndexDefinition := do
  let name := cleanName column.name
  let constraints ← column.constraints.find? (·.isUnique)
  let key := constraints.uniqueName.getD (IndexDefinition.uniqueColumnName table name)
  some (.ofUniqueColumn key table name)

/-- The indexes that a change defines. -/
def definitions : Change → List IndexDefinition
  | .createIndex table name columns isUnique =>
    let table := cleanName table
    let columns := columns.map (·.map cleanName)
    let name := name.getD (IndexDefinition.generatedName table columns "idx")
    [⟨name, table, columns, isUnique, false⟩]
  | .addKey isPrimary table columnNames name =>
    let table := cleanName table
    let columns := listedColumns columnNames
    let generated :=
      if isPrimary then IndexDefinition.primaryKeyName table
      else IndexDefinition.generatedName table columns "key"
    [⟨name.getD generated, table, columns, true, false⟩]
  | .createTable table columns => columns.filterMap (newColumnKey? (cleanName table))
  | .addColumn table columns => columns.filterMap (addedColumnKey? (cleanName table))

end Change

namespace ChangelogItem

/-- The columns that an item of a changelog file indexes. -/
def indexedColumns (file : String) : ChangelogItem → List IndexedColumn
  | .change made => made.definitions.flatMap (·.indexedColumns file)
  | .reference _ => []
  | .text sql => IndexStatement.scan sql.toList file

/-- The reference that an item is. -/
def reference? : ChangelogItem → Option Reference
  | .reference made => some made
  | _ => none

end ChangelogItem

/-- What the items of a changelog file come to. -/
def Scanned.ofItems (file : String) (items : List ChangelogItem) : Scanned where
  columns := items.flatMap (·.indexedColumns file)
  references := items.filterMap (·.reference?)

end IndexAudit
