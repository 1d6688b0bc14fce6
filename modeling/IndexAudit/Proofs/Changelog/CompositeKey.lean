import IndexAudit.Changelog.Document
import IndexAudit.Proofs.Comparison
import IndexAudit.Proofs.Sql.Script

/-!
Primary keys over several columns, told of each column or in one list.

A change that makes a table tells each column on its own that it belongs to the key, and each such
column is an index of its own. A statement lists the columns of the key, and only the first one
leads it.
-/

namespace IndexAudit

/-- Whether the column of a query is one of some columns of a table, letter case aside. -/
def QueryColumn.isAmong (table : String) (names : List String) (query : QueryColumn) : Bool :=
  lower table == query.key.1 && names.any (lower · == query.key.2)

namespace ChangeColumn

/-- Whether a column of a new table belongs to the primary key. -/
def isKey (column : ChangeColumn) : Bool :=
  column.constraints.head?.any (·.isPrimaryKey)

/-- Whether a column of a new table is unique without belonging to the primary key. -/
def isUnique (column : ChangeColumn) : Bool :=
  !column.isKey && column.constraints.head?.any (·.isUnique)

/-- The names of those columns of a new table that are of a kind, in order. -/
def names (kind : ChangeColumn → Bool) (columns : List ChangeColumn) : List String :=
  (columns.filter kind).map fun column => cleanName column.name

open IndexStatement in
/-- The elements of a new table with its primary key as one list behind the columns. -/
def tableElements (columns : List ChangeColumn) : List TableElement :=
  columns.map (fun column =>
    .column (cleanName column.name) (if column.isUnique then .unique else .plain)) ++
      [.key (.primary none ((names isKey columns).map .column))]

end ChangeColumn

namespace IndexedColumn

/-- Behind the first place of an index, no column leads it. -/
theorem leads_columnsFrom (definition : IndexDefinition) (file : String) (key : String × String)
    (place : Nat) (columns : List (Option String)) :
    (definition.columnsFrom file (place + 1) columns).any (·.leads key) = false := by
  induction columns generalizing place with
  | nil => rfl
  | cons column? columns ih =>
    -- An expression takes a place as well, so the places only grow.
    cases column? with
    | none => exact ih (place + 1)
    | some column => simpa [IndexDefinition.columnsFrom, leads] using ih (place + 1)

/-- An index is led by its first item, if that is a column. -/
theorem leads_indexedColumns (definition : IndexDefinition) (file : String)
    (key : String × String) :
    (definition.indexedColumns file).any (·.leads key) =
      (lower definition.table == key.1 &&
        definition.columns.head?.join.any (lower · == key.2)) := by
  rw [IndexDefinition.indexedColumns]
  -- Columns behind the first item are at later positions, and lead nothing.
  cases definition.columns with
  | nil => simp [IndexDefinition.columnsFrom]
  | cons column? columns =>
    have behind := leads_columnsFrom definition file key 0 columns
    cases column? with
    | none => simpa [IndexDefinition.columnsFrom] using behind
    | some column =>
      rw [IndexDefinition.columnsFrom, List.any_cons, behind, Bool.or_false]
      rfl

end IndexedColumn

namespace MissingIndex

/-- A comparison leaves out the queries on columns that lead an index, and looks no further. -/
theorem compare_led {indexes : List IndexedColumn} {led : QueryColumn → Bool}
    (leads : ∀ query : QueryColumn, indexes.any (·.leads query.key) = led query)
    (service : String) (queries : List QueryColumn) (exclusions : Exclusions) :
    compare service queries indexes exclusions =
      compare service (queries.filter fun query => !led query) [] exclusions := by
  -- A column that an index leads might as well not have been queried.
  have same : ∀ query : QueryColumn, isReported indexes exclusions query =
      (isReported [] exclusions query && !led query) := by
    intro query
    simp [isReported, ← leads]
  rw [compare, compare, List.filter_filter, funext same]

end MissingIndex

namespace ChangeColumn

variable {table : String}

/-- A column of a new table has a key of its own exactly if it is of one of the two kinds. -/
theorem newColumnKey?_eq (table : String) (column : ChangeColumn) :
    ∃ name, Change.newColumnKey? table column =
      if column.isKey || column.isUnique then
        some (.ofUniqueColumn name table (cleanName column.name))
      else none := by
  obtain ⟨written, constraints⟩ := column
  simp only [Change.newColumnKey?, isKey, isUnique]
  -- The names of keys differ with their kind, but no reader of the columns looks at them.
  cases constraints with
  | nil => exact ⟨"", rfl⟩
  | cons constraints others =>
    cases primary : constraints.isPrimaryKey with
    | true =>
      exact ⟨constraints.primaryKeyName.getD (IndexDefinition.primaryKeyName table), by
        simp [primary]⟩
    | false =>
      cases unique : constraints.isUnique with
      | true =>
        exact ⟨constraints.uniqueName.getD (IndexDefinition.uniqueColumnName table
          (cleanName written)), by simp [primary, unique]⟩
      | false => exact ⟨"", by simp [primary, unique]⟩

/-- The keys of the columns of a new table are unique indexes of one column each. -/
theorem definitions_createTable (columns : List ChangeColumn) :
    (Change.createTable table columns).definitions.map
        (fun definition => (definition.table, definition.columns, definition.isUnique)) =
      (names (fun column => column.isKey || column.isUnique) columns).map
        fun name => (cleanName table, [some name], true) := by
  simp only [Change.definitions, names]
  -- Each column adds an index of its own or nothing.
  induction columns with
  | nil => rfl
  | cons column columns ih =>
    obtain ⟨name, key⟩ := newColumnKey?_eq (cleanName table) column
    rw [List.filterMap_cons, List.filter_cons, key]
    cases column.isKey || column.isUnique with
    | false => simpa using ih
    | true => simpa [IndexDefinition.ofUniqueColumn] using ih

/-- What is told of the columns of unique indexes of one column each, whatever these are named. -/
theorem indexedColumns_unique {definitions : List IndexDefinition} {columns : List String}
    (unique : definitions.map
        (fun definition => (definition.table, definition.columns, definition.isUnique)) =
      columns.map fun name => (table, [some name], true)) (file : String) :
    (definitions.flatMap (·.indexedColumns file)).map
        (fun indexed => (indexed.table, indexed.column, indexed.position, indexed.isUnique)) =
      columns.map fun name => (table, name, 0, true) := by
  -- Each index and its only column go together.
  induction definitions generalizing columns with
  | nil => simp_all
  | cons definition definitions ih =>
    cases columns with
    | nil => simp at unique
    | cons name columns =>
      obtain ⟨own, others⟩ := List.cons.inj unique
      obtain ⟨ofTable, ofColumn, isUnique⟩ : definition.table = table ∧
        definition.columns = [some name] ∧ definition.isUnique = true := by simpa using own
      rw [List.flatMap_cons, List.map_append, ih others, List.map_cons]
      simp [IndexDefinition.indexedColumns, IndexDefinition.columnsFrom, ofTable, ofColumn, isUnique]

/-- The columns of the keys of a new table are each the first one of a unique index. -/
theorem indexedColumns_createTable (file : String) (columns : List ChangeColumn) :
    (ChangelogItem.indexedColumns file (.change (.createTable table columns))).map
        (fun indexed => (indexed.table, indexed.column, indexed.position, indexed.isUnique)) =
      (names (fun column => column.isKey || column.isUnique) columns).map
        fun name => (cleanName table, name, 0, true) :=
  -- The item tells the columns of its definitions, one after the other.
  indexedColumns_unique (definitions_createTable columns) file

/-- Every column of the primary key leads an index of a new table, and so does a unique one. -/
theorem leads_createTable (file : String) (columns : List ChangeColumn) (query : QueryColumn) :
    (ChangelogItem.indexedColumns file (.change (.createTable table columns))).any
        (·.leads query.key) =
      query.isAmong (cleanName table)
        (names (fun column => column.isKey || column.isUnique) columns) := by
  have places : (ChangelogItem.indexedColumns file (.change (.createTable table columns))).map _ = _ :=
    indexedColumns_createTable file columns
  -- Whether an index leads can be told from its table, its column and its position.
  have judged : ∀ indexed : List IndexedColumn, indexed.any (·.leads query.key) =
      (indexed.map fun indexed =>
        (indexed.table, indexed.column, indexed.position, indexed.isUnique)).any
        fun place => place.2.2.1 == 0 && lower place.1 == query.key.1 &&
          lower place.2.1 == query.key.2 := by
    intro indexed
    rw [List.any_map]
    rfl
  rw [judged, places, List.any_map, QueryColumn.isAmong]
  cases sameTable : lower (cleanName table) == query.key.1 <;>
    simp [Function.comp_def, sameTable]

open IndexStatement in
/-- Of the columns of a key in one list the first one leads, beside those that are unique. -/
theorem leads_tableElements (file : String) (columns : List ChangeColumn) (query : QueryColumn) :
    (((Statement.createTable table (tableElements columns)).definitions.flatMap
        (·.indexedColumns file)).any (·.leads query.key)) =
      query.isAmong table
        (names isUnique columns ++ (names isKey columns).head?.toList) := by
  -- The elements for columns define the indexes of the unique ones, and the last one the key.
  have own : (columns.map fun column => TableElement.column (cleanName column.name)
        (if column.isUnique then .unique else .plain)).filterMap (·.definition? table) =
      (names isUnique columns).map fun name =>
        .ofUniqueColumn (IndexDefinition.uniqueColumnName table name) table name := by
    rw [names]
    induction columns with
    | nil => rfl
    | cons column columns ih =>
      rw [List.map_cons, List.filterMap_cons, ih, List.filter_cons]
      cases column.isUnique <;> rfl
  have key : ([.key (.primary none ((names isKey columns).map .column))] :
      List TableElement).filterMap (·.definition? table) =
      [⟨IndexDefinition.primaryKeyName table, table, (names isKey columns).map some, true, false⟩] := by
    simp [TableElement.definition?, TableKey.definition, IndexItem.column?, Function.comp_def]
  rw [Statement.definitions, tableElements, List.filterMap_append, own, key, List.flatMap_append,
    List.any_append, List.any_flatMap, List.any_flatMap]
  simp only [IndexedColumn.leads_indexedColumns, List.any_map, List.any_cons, List.any_nil,
    QueryColumn.isAmong, List.any_append]
  cases sameTable : lower table == query.key.1 <;> cases names isKey columns <;>
    simp [IndexDefinition.ofUniqueColumn, Function.comp_def, sameTable]

/-- A statement that makes a table is read as its keys, wherever blanks and comments stand. -/
theorem scan_createTable {elements : List IndexStatement.TableElement} {tokens : List SqlToken}
    {text : List Char}
    (written : tokens ∈ (IndexStatement.Statement.createTable table elements).written)
    (spelled : SqlToken.Spells tokens text) (file : String) :
    IndexStatement.scan text file =
      (IndexStatement.Statement.createTable table elements).definitions.flatMap
        (·.indexedColumns file) := by
  -- One statement is a script, so what is known of scripts applies.
  have only : tokens ∈ IndexStatement.script [.createTable table elements] :=
    ⟨tokens, written, [], .inr rfl, List.append_nil tokens⟩
  have read := IndexStatement.statements_single written
  rw [IndexStatement.scan, if_pos (IndexStatement.mayDefine_script spelled only),
    SqlToken.tokenize_of_spells spelled, read]
  simp [IndexStatement.Statement.definitions_written written]

end ChangeColumn

namespace MissingIndex

open ChangeColumn in
/--
A key over several columns of a new table, as a change and as a statement.

A change is a value, in YAML and JSON alike, or an element. In either each column of the key is the
only one of a unique index, at its first position, so none of them is reported. In a statement the
key is one list, of which the first column alone leads.
-/
theorem compare_createTable (table file : String) (columns : List ChangeColumn) :
    (∀ value : YamlValue, value.textAt? "tableName" = some table → value.changeColumns = columns →
      YamlValue.item? "createTable" value = some (.change (.createTable table columns))) ∧
    (∀ element : XmlElement, element.name = "createTable" →
      element.attribute? "tableName" = some table → element.changeColumns = columns →
      XmlElement.item? element = some (.change (.createTable table columns))) ∧
    (Change.createTable table columns).definitions.map
        (fun definition => (definition.table, definition.columns, definition.isUnique)) =
      (names (fun column => column.isKey || column.isUnique) columns).map
        (fun name => (cleanName table, [some name], true)) ∧
    (ChangelogItem.indexedColumns file (.change (.createTable table columns))).map
        (fun indexed => (indexed.table, indexed.column, indexed.position, indexed.isUnique)) =
      (names (fun column => column.isKey || column.isUnique) columns).map
        (fun name => (cleanName table, name, 0, true)) ∧
    (∀ service queries exclusions,
      compare service queries
          (ChangelogItem.indexedColumns file (.change (.createTable table columns))) exclusions =
        compare service (queries.filter fun query => !query.isAmong (cleanName table)
          (names (fun column => column.isKey || column.isUnique) columns)) [] exclusions) ∧
    ∀ tokens text,
      tokens ∈ (IndexStatement.Statement.createTable (cleanName table)
        (tableElements columns)).written → SqlToken.Spells tokens text →
      ∀ service queries exclusions,
        compare service queries (IndexStatement.scan text file) exclusions =
          compare service (queries.filter fun query => !query.isAmong (cleanName table)
            (names isUnique columns ++ (names isKey columns).head?.toList)) [] exclusions := by
  refine ⟨?yaml, ?xml, definitions_createTable columns, indexedColumns_createTable file columns,
    ?change, ?statement⟩
  case yaml =>
    rintro value named rfl
    simp [YamlValue.item?, YamlValue.change?, named]
  case xml =>
    rintro ⟨_, attributes, text, children⟩ rfl named rfl
    simp [XmlElement.item?, XmlElement.name, XmlElement.change?, named]
  case change => exact compare_led (leads_createTable file columns)
  -- The tokens say the same table, with the columns of the key in one list.
  case statement =>
    intro tokens text written spelled
    rw [scan_createTable written spelled]
    exact compare_led (leads_tableElements file columns)

/-- The columns of a table of items, both of which are its key. -/
def itemColumns : List ChangeColumn :=
  [⟨"order_id", [⟨true, false, none, none⟩]⟩, ⟨"line", [⟨true, false, none, none⟩]⟩]

/-- The change that makes the table, as a value. -/
def itemsValue : YamlValue :=
  let key : YamlValue := .mapping [(.string "primaryKey", .bool true)]
  let column name : YamlValue :=
    .mapping [(.string "column", .mapping [(.string "name", .string name),
      (.string "constraints", key)])]
  .mapping [(.string "tableName", .string "items"),
    (.string "columns", .sequence [column "order_id", column "line"])]

/-- The change that makes the table, as an element. -/
def itemsElement : XmlElement :=
  let key : XmlElement := .element "constraints" [("primaryKey", "true")] "" []
  .element "createTable" [("tableName", "items")] ""
    [.element "column" [("name", "order_id")] "" [key], .element "column" [("name", "line")] "" [key]]

/-- The statement that makes the table. -/
def itemsTokens : List SqlToken :=
  [.word "CREATE", .word "TABLE", .word "items", .punctuation '(', .word "order_id",
    .word "bigint", .punctuation ',', .word "line", .word "int", .punctuation ',',
    .word "PRIMARY", .word "KEY", .punctuation '(', .word "order_id", .punctuation ',',
    .word "line", .punctuation ')', .punctuation ')']

open IndexStatement SqlToken in
/-- The statement is one of the ways to write the table. -/
theorem itemsTokens_written :
    itemsTokens ∈ (Statement.createTable "items" (ChangeColumn.tableElements itemColumns)).written := by
  have nothing : [] ∈ TableElement.attributes := ⟨.nil, List.forall_mem_nil _⟩
  have typed : ∀ column type, (SqlToken.word column).isOneOf keywords = false →
      (SqlToken.word type).isOneOf ["primary", "unique"] = false →
      [.word column, .word type] ∈ (TableElement.column column .plain).written := by
    intro column type named plain
    have typeName : [.word type] ∈ TableElement.attributes :=
      ⟨.level rfl (by simp) .nil, by simpa using plain⟩
    exact ⟨_, ⟨_, ⟨_, ⟨_, rfl, named, rfl⟩, _, typeName, rfl⟩, _, rfl, rfl⟩, _, nothing, rfl⟩
  have plain : ∀ text, [.word text] ∈ (IndexItem.column text).written :=
    fun text => ⟨_, .inl rfl, _, Language.nil_mem_kstar _, rfl⟩
  -- The key lists both columns, and the elements of the table are in front of it.
  have items : [.punctuation '(', .word "order_id", .punctuation ',', .word "line",
      .punctuation ')'] ∈ itemList [.column "order_id", .column "line"] :=
    ⟨_, ⟨_, rfl, _, ⟨_, ⟨_, plain "order_id", _, rfl, rfl⟩, _, plain "line", rfl⟩, rfl⟩, _, rfl,
      rfl⟩
  have key : [.word "PRIMARY", .word "KEY", .punctuation '(', .word "order_id", .punctuation ',',
      .word "line", .punctuation ')'] ∈
      (TableElement.key (.primary none [.column "order_id", .column "line"])).written :=
    ⟨_, ⟨_, rfl, _, ⟨_, ⟨_, by decide, rfl⟩, _, ⟨_, by decide, rfl⟩, rfl⟩, rfl⟩, _, items, rfl⟩
  have table : [.word "items"] ∈ qualified "items" :=
    ⟨[], Language.nil_mem_kstar _, _, ⟨_, rfl, by decide, rfl⟩, rfl⟩
  have elements : [.word "order_id", .word "bigint", .punctuation ',', .word "line", .word "int",
      .punctuation ',', .word "PRIMARY", .word "KEY", .punctuation '(', .word "order_id",
      .punctuation ',', .word "line", .punctuation ')'] ∈
      listed TableElement.written (ChangeColumn.tableElements itemColumns) :=
    ⟨_, ⟨_, typed "order_id" "bigint" (by decide) (by decide), _, rfl, rfl⟩, _,
      ⟨_, ⟨_, typed "line" "int" (by decide) (by decide), _, rfl, rfl⟩, _, key, rfl⟩, rfl⟩
  exact ⟨_, ⟨_, ⟨_, by decide, rfl⟩, _, ⟨_, by decide, rfl⟩, rfl⟩, _, ⟨_, ⟨_, ⟨_, .inr rfl, _,
    table, rfl⟩, _, ⟨_, ⟨_, rfl, _, elements, rfl⟩, _, rfl, rfl⟩, rfl⟩, [], List.not_mem_nil, rfl⟩,
      rfl⟩

/-- A query for the items on a line, whatever their order. -/
def lineQuery : QueryColumn :=
  ⟨"items", "line", "ItemRepository.findByLine", "ItemRepository.kt", 1, .derived⟩

/-- The statement is the only one of the three ways that leaves the second column to be reported. -/
theorem compare_createTable_items :
    YamlValue.item? "createTable" itemsValue = some (.change (.createTable "items" itemColumns)) ∧
      XmlElement.item? itemsElement = some (.change (.createTable "items" itemColumns)) ∧
      compare "shop" [lineQuery] (ChangelogItem.indexedColumns "items.yaml"
        (.change (.createTable "items" itemColumns))) (.ofNames [] [] []) = [] ∧
      compare "shop" [lineQuery]
        (IndexStatement.scan ("CREATE TABLE items (order_id bigint, line int, " ++
          "PRIMARY KEY (order_id, line))").toList "items.yaml") (.ofNames [] [] []) =
        [ofQuery "shop" lineQuery] := by
  have tokens : SqlToken.tokenize ("CREATE TABLE items (order_id bigint, line int, " ++
      "PRIMARY KEY (order_id, line))").toList = itemsTokens := by decide +kernel
  -- Only what the comparison makes of the indexed columns is needed, not the columns themselves.
  obtain ⟨value, element, -, -, change, statement⟩ :=
    compare_createTable "items" "items.yaml" itemColumns
  refine ⟨value itemsValue (by decide) (by decide), element itemsElement rfl rfl (by decide),
    (change _ _ _).trans (by decide +kernel), ?_⟩
  exact (statement itemsTokens _ itemsTokens_written (tokens ▸ SqlToken.spells_tokenize _) _ _ _).trans
    (by decide +kernel)

/-- The table in YAML. -/
def itemsYaml : String :=
  "databaseChangeLog:\n- createTable:\n    tableName: items\n    columns:\n" ++
    "    - column:\n        name: order_id\n        constraints:\n          primaryKey: true\n" ++
    "    - column:\n        name: line\n        constraints:\n          primaryKey: true\n"

/-- The table in XML. -/
def itemsXml : String :=
  "<databaseChangeLog><createTable tableName='items'>" ++
    "<column name='order_id'><constraints primaryKey='true'/></column>" ++
    "<column name='line'><constraints primaryKey='true'/></column></createTable></databaseChangeLog>"

/-- The characters of three texts that stand one behind the other. -/
theorem toList_ofList_append (front middle back : List Char) :
    (String.ofList front ++ String.ofList middle ++ String.ofList back).toList =
      front ++ middle ++ back := by
  simp

/-- A key over two columns does not lead with one column in every format. -/
theorem compare_formats_ne :
    let findings file text := (Changelog.scan? file text).map fun scanned =>
      compare "shop" [lineQuery] scanned.columns (.ofNames [] [] [])
    findings "items.yaml" itemsYaml.toList = some [] ∧ findings "items.xml" itemsXml.toList = some [] ∧
      findings "items.sql" ("CREATE TABLE items (order_id bigint, line int, " ++
        "PRIMARY KEY (order_id, line))").toList = some [ofQuery "shop" lineQuery] := by
  -- The texts are put together as lists: to decode them as strings takes far longer.
  have yaml : itemsYaml.toList = _ := toList_ofList_append _ _ _
  have xml : itemsXml.toList = _ := toList_ofList_append _ _ _
  rw [yaml, xml]
  decide +kernel

end MissingIndex

end IndexAudit
