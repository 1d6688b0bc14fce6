import IndexAudit.Text.Blank

/-! Indexes as they are declared, and the columns they cover. -/

namespace IndexAudit

/-- A column that an index, a unique constraint or a primary key covers. -/
structure IndexedColumn where
  table : String
  column : String
  index : String
  /-- The file that declares the index. -/
  file : String
  isUnique : Bool
  /-- Whether the index leaves out rows by a predicate. -/
  isPartial : Bool
  /-- The place of the column in the index, counted from zero. -/
  position : Nat
deriving Repr, DecidableEq

/-- An index, a unique constraint or a primary key as declared. -/
structure IndexDefinition where
  name : String
  table : String
  /-- The columns in order; an expression takes a place without being a column. -/
  columns : List (Option String)
  isUnique : Bool
  isPartial : Bool
deriving Repr, DecidableEq

namespace IndexDefinition

/-- The columns from a place on that are no expressions, each with its place. -/
def columnsFrom (definition : IndexDefinition) (file : String) (place : Nat) :
    List (Option String) → List IndexedColumn
  | [] => []
  | none :: rest => definition.columnsFrom file (place + 1) rest
  | some column :: rest =>
    { table := definition.table
      column := column
      index := definition.name
      file := file
      isUnique := definition.isUnique
      isPartial := definition.isPartial
      position := place } :: definition.columnsFrom file (place + 1) rest

/-- The columns that a definition in a file covers, in order. -/
def indexedColumns (definition : IndexDefinition) (file : String) : List IndexedColumn :=
  definition.columnsFrom file 0 definition.columns

/-- The name of an index that is given none: the table, its columns and an ending. -/
def generatedName (table : String) (columns : List (Option String)) (ending : String) : String :=
  "_".intercalate (table :: columns.filterMap id ++ [ending])

/-- The name of a primary key that is given none. -/
def primaryKeyName (table : String) : String :=
  table ++ "_pkey"

/-- The name of a unique column constraint that is given none. -/
def uniqueColumnName (table column : String) : String :=
  table ++ "_" ++ column ++ "_key"

/-- The definition that a key or unique constraint on a single column makes. -/
def ofUniqueColumn (name table column : String) : IndexDefinition :=
  ⟨name, table, [some column], true, false⟩

end IndexDefinition

end IndexAudit
