import IndexAudit.Naming

/-! How entities map to tables and their fields to columns. -/

namespace IndexAudit

/-- Writes a value under a key: in its place if the key is there, at the end if not. -/
def putEntry (key value : String) : List (String × String) → List (String × String)
  | [] => [(key, value)]
  | entry :: rest =>
    if entry.1 = key then (key, value) :: rest else entry :: putEntry key value rest

/-- Writes a value under a key only if there is none yet. -/
def putMissing (key value : String) (entries : List (String × String)) : List (String × String) :=
  if entries.any (·.1 == key) then entries else putEntry key value entries

/-- The table and the columns behind one entity. -/
structure TableMapping where
  /-- The simple class name of the entity. -/
  entityName : String
  tableName : String
  /-- The column behind each field, in the order of declaration. -/
  fields : List (String × String)
deriving Repr, DecidableEq

/-- The name of the field, and of the column, that identifies an entity. -/
def idField : String := "id"

namespace TableMapping

/-- A mapping of declared fields, with the identifier and the audit fields every entity has. -/
def ofDeclared (entityName tableName : String) (declared : List (String × String)) :
    TableMapping where
  entityName := entityName
  tableName := tableName
  fields :=
    putMissing "updatedAt" "updated_at"
      (putMissing "createdAt" "created_at" (putMissing idField idField declared))

/-- The column that a field is mapped to, if it is. -/
def column? (mapping : TableMapping) (field : String) : Option String :=
  mapping.fields.lookup field

/-- The column behind a field; an unmapped field has the snake-case column. -/
def resolve (mapping : TableMapping) (field : String) : String :=
  (mapping.column? field).getD (snakeCase field)

end TableMapping

/-- The mappings of a set of entities, one for each entity name, in the order of the names. -/
abbrev Mappings := List TableMapping

namespace Mappings

/-- Adds a mapping, in place of an earlier one of the same entity. -/
def insert (mapping : TableMapping) : Mappings → Mappings
  | [] => [mapping]
  | first :: rest =>
    if mapping.entityName < first.entityName then mapping :: first :: rest
    else if mapping.entityName = first.entityName then mapping :: rest
    else first :: insert mapping rest

/-- The mappings of a list of entities, of which a later one wins. -/
def ofList (list : List TableMapping) : Mappings :=
  list.foldl (fun mappings mapping => insert mapping mappings) []

/-- The mapping of an entity, if it has one. -/
def find (mappings : Mappings) (entity : String) : Option TableMapping :=
  mappings.find? (·.entityName == entity)

end Mappings

end IndexAudit
