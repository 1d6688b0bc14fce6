/-! The columns that queries refer to. -/

namespace IndexAudit

/-- The language in which a query names the columns it refers to. -/
inductive QueryType where
  /-- Fields in the name of the method. -/
  | derived
  /-- The entity query language. -/
  | jpql
  /-- The database's own SQL. -/
  | native
deriving Repr, DecidableEq

/-- A column that a query of a repository refers to. -/
structure QueryColumn where
  table : String
  column : String
  /-- The repository and its method, with a dot between them. -/
  source : String
  file : String
  /-- The line on which the method's name stands. -/
  line : Nat
  queryType : QueryType
deriving Repr, DecidableEq

namespace QueryType

/-- The short name of a query language in reports. -/
def label : QueryType → String
  | .derived => "derived"
  | .jpql => "jpql"
  | .native => "native"

/-- The full name of a query language in machine-readable reports. -/
def name : QueryType → String
  | .derived => "DerivedQuery"
  | .jpql => "Jpql"
  | .native => "NativeSql"

/-- The query language of a full name. -/
def ofName? (text : String) : Option QueryType :=
  [derived, jpql, native].find? (·.name == text)

end QueryType

end IndexAudit
