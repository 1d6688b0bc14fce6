import IndexAudit.Exclusions
import IndexAudit.Finding
import IndexAudit.IndexDefinition
import IndexAudit.Keyed
import IndexAudit.Mapping

/-!
The columns of queries that no index leads.

A column counts as indexed only where it is the first one of an index: a column behind it is no
help to a query for that column alone.
-/

namespace IndexAudit

/-- The table and column of a query in lower case, which identify a finding within a service. -/
def QueryColumn.key (query : QueryColumn) : String × String :=
  (lower query.table, lower query.column)

namespace IndexedColumn

/-- Whether an indexed column leads its index and is the column of a key. -/
def leads (indexed : IndexedColumn) (key : String × String) : Bool :=
  indexed.position == 0 && lower indexed.table == key.1 && lower indexed.column == key.2

end IndexedColumn

namespace MissingIndex

/-- Whether the column of a query is to be reported. -/
def isReported (indexes : List IndexedColumn) (exclusions : Exclusions) (query : QueryColumn) :
    Bool :=
  let key := query.key
  -- An identifier is the primary key, which the database indexes by itself.
  !exclusions.excludes key.1 key.2 && key.2 != idField && !indexes.any (·.leads key)

/-- The finding on the column of a query of a service. -/
def ofQuery (service : String) (query : QueryColumn) : MissingIndex where
  service := service
  table := query.table
  column := query.column
  source := query.source
  file := query.file
  line := query.line
  queryType := query.queryType

/-- The table and column of a finding in lower case, which order the findings of a service. -/
def columnParts (finding : MissingIndex) : List String :=
  [lower finding.table, lower finding.column]

/--
The findings on the queries of a service, in the order of their tables and columns.

Each column is reported once, for the first query that uses it.
-/
def compare (service : String) (queries : List QueryColumn) (indexes : List IndexedColumn)
    (exclusions : Exclusions) : List MissingIndex :=
  let reported := queries.filter (isReported indexes exclusions)
  Keyed.sort columnParts ((Keyed.firsts QueryColumn.key reported).map (ofQuery service))

/-- The findings of several services, in the order of their keys. -/
def merge (results : List (List MissingIndex)) : List MissingIndex :=
  Keyed.sort (·.key.parts) results.flatten

end MissingIndex

end IndexAudit
