import IndexAudit.IndexDefinition
import IndexAudit.Sql.Token
import IndexAudit.Text.Search

/-!
The indexes that SQL statements define.

`CREATE INDEX`, `CREATE TABLE` and `ALTER TABLE ... ADD` define indexes; other statements do not.
-/

namespace IndexAudit

namespace IndexStatement

/-- The words for order, null placement and collation behind an indexed column. -/
def columnModifiers : List String :=
  ["asc", "desc", "nulls", "first", "last", "collate"]

open SqlToken (startsWith skip)

/-- A token list without `IF NOT EXISTS` at its start. -/
def skipIfNotExists (tokens : List SqlToken) : List SqlToken :=
  if startsWith "if" tokens && startsWith "not" (tokens.drop 1) &&
      startsWith "exists" (tokens.drop 2) then
    tokens.drop 3
  else tokens

/--
The last part of a dotted name at the start of a token list, and what follows the name.

A token in a name's place that is no identifier is passed over all the same.
-/
def readQualified : List SqlToken → Option String × List SqlToken
  | [] => (none, [])
  | token :: rest =>
    match token.ident?, rest with
    | none, _ => (none, rest)
    | some _, .punctuation '.' :: after => readQualified after
    | some name, _ => (some name, rest)

/-- What stands in the brackets at the start of a token list, and what follows them. -/
def readBracketed? (tokens : List SqlToken) : Option (List SqlToken × List SqlToken) :=
  if tokens.head? = some (.punctuation '(') then
    (SqlToken.closeIndex tokens).map fun close =>
      ((tokens.drop 1).take (close - 1), tokens.drop (close + 1))
  else none

/-- Whether a token behind an indexed column leaves it a column: a modifier or operator class. -/
def isModifier : SqlToken → Bool
  | .word text =>
    let lowered := text.toList.map Char.toLower
    columnModifiers.contains (String.ofList lowered) || "_ops".toList.isSuffixOf lowered
  | .quoted _ => true
  | _ => false

/-- The column that an item of an index names; anything else is an expression. -/
def itemColumn? : List SqlToken → Option String
  | [] => none
  | first :: rest => if rest.all isModifier then first.ident? else none

/-- The columns of an index in order, expressions in their places. -/
def indexColumns (list : List SqlToken) : List (Option String) :=
  (SqlToken.splitCommas list).map itemColumn?

/-- The definition in a statement behind `CREATE [UNIQUE] INDEX`. -/
def ofCreateIndex (isUnique : Bool) (tokens : List SqlToken) : Option IndexDefinition := do
  let start := skipIfNotExists (skip "concurrently" tokens)
  let (name, named) := if startsWith "on" start then (none, start) else readQualified start
  if !startsWith "on" named then none
  else
    let (table, behind) := readQualified (skip "only" (named.drop 1))
    let table ← table
    -- Whatever token comes behind `USING` is taken for the method.
    let opening := if startsWith "using" behind then behind.drop 2 else behind
    let (list, after) ← readBracketed? opening
    let columns := indexColumns list
    some
      { name := name.getD (IndexDefinition.generatedName table columns "idx")
        table := table
        columns := columns
        isUnique := isUnique
        isPartial := after.any (·.isKeyword "where") }

/--
Whether the tokens behind a leading `INDEX` or `KEY` name columns.

A column that is itself called so is followed by its type instead, whose brackets hold numbers.
-/
def listsColumns (tokens : List SqlToken) : Bool :=
  let list := if tokens.head?.any (·.ident?.isSome) then tokens.drop 1 else tokens
  match readBracketed? list with
  | none => false
  | some (inside, _) =>
    (SqlToken.splitCommas inside).all fun item => (item.head?.bind (·.ident?)).isSome

/-- The kinds of constraints and indexes that may stand among the elements of a table. -/
inductive KeyKind where
  | primary
  | unique
  | index
deriving Repr, DecidableEq

/-- The kind of key that an element declares, and what follows the words for it. -/
def readKind? (tokens : List SqlToken) : Option (KeyKind × List SqlToken) :=
  if startsWith "primary" tokens then
    let rest := tokens.drop 1
    if startsWith "key" rest then some (.primary, rest.drop 1) else none
  else if startsWith "unique" tokens then
    let rest := tokens.drop 1
    some (.unique, if startsWith "key" rest then rest.drop 1 else skip "index" rest)
  else if startsWith "index" tokens || startsWith "key" tokens then
    let rest := tokens.drop 1
    if listsColumns rest then some (.index, rest) else none
  else none

/-- The name of a key that is given none. -/
def defaultName (kind : KeyKind) (table : String) (columns : List (Option String)) : String :=
  match kind with
  | .primary => IndexDefinition.primaryKeyName table
  | .unique => IndexDefinition.generatedName table columns "key"
  | .index => IndexDefinition.generatedName table columns "idx"

/-- The key that an element of a table declares, if it is no column. -/
def ofTableElement (table : String) (element : List SqlToken) : Option IndexDefinition := do
  let constrained := startsWith "constraint" element
  let name := if constrained then ((element.drop 1).head?).bind (·.ident?) else none
  let (kind, rest) ← readKind? (if constrained then element.drop 2 else element)
  -- An index may be named right in front of its columns.
  let inline := rest.head? ≠ some (.punctuation '(')
  let inlineName := if inline then rest.head?.bind (·.ident?) else none
  let (list, _) ← readBracketed? (if inline then rest.drop 1 else rest)
  let columns := indexColumns list
  some
    { name := (name.or inlineName).getD (defaultName kind table columns)
      table := table
      columns := columns
      isUnique := kind != .index
      isPartial := false }

/-- Whether two keywords stand next to each other somewhere in a token list. -/
def hasPair (first second : String) : List SqlToken → Bool
  | [] => false
  | token :: rest => (token.isKeyword first && startsWith second rest) || hasPair first second rest

/-- The key that a column of a table declares on itself. -/
def ofColumn (table : String) (element : List SqlToken) : Option IndexDefinition := do
  let column ← (← element.head?).ident?
  -- A primary key is unique as well, so its words are looked for first.
  if hasPair "primary" "key" element then
    some (.ofUniqueColumn (IndexDefinition.primaryKeyName table) table column)
  else if element.any (·.isKeyword "unique") then
    some (.ofUniqueColumn (IndexDefinition.uniqueColumnName table column) table column)
  else none

/-- The definitions in a statement behind `CREATE TABLE`. -/
def ofCreateTable (tokens : List SqlToken) : List IndexDefinition :=
  let (table, opening) := readQualified (skipIfNotExists tokens)
  match table, readBracketed? opening with
  | some table, some (elements, _) =>
    (SqlToken.splitCommas elements).filterMap fun element =>
      (ofTableElement table element).or (ofColumn table element)
  | _, _ => []

/-- The definitions in a statement behind `ALTER TABLE`. -/
def ofAlterTable (tokens : List SqlToken) : List IndexDefinition :=
  -- `ONLY` is looked for in front of `IF EXISTS`, and nowhere behind it.
  let start := skip "only" tokens
  let (table, actions) :=
    readQualified (if startsWith "if" start then skip "exists" (start.drop 1) else start)
  match table with
  | none => []
  | some table =>
    (SqlToken.splitCommas actions).filterMap fun action =>
      if startsWith "add" action then ofTableElement table (action.drop 1) else none

/-- The indexes that one statement defines. -/
def definitions (statement : List SqlToken) : List IndexDefinition :=
  if startsWith "create" statement then
    let rest := statement.drop 1
    let isUnique := startsWith "unique" rest
    let kind := skip "unique" rest
    if startsWith "index" kind then (ofCreateIndex isUnique (kind.drop 1)).toList
    -- `CREATE UNIQUE TABLE` is no statement.
    else if !isUnique && startsWith "table" kind then ofCreateTable (kind.drop 1)
    else []
  else if startsWith "alter" statement && startsWith "table" (statement.drop 1) then
    ofAlterTable (statement.drop 2)
  else []

/-- Whether a text holds a word that a defining statement begins with; most texts do not. -/
def mayDefine (text : List Char) : Bool :=
  let raised := text.map Char.toUpper
  (splitAtText? "CREATE".toList raised).isSome || (splitAtText? "ALTER".toList raised).isSome

/-- The columns that the statements of a text in a file index, in order. -/
def scan (text : List Char) (file : String) : List IndexedColumn :=
  if mayDefine text then
    (SqlToken.statements (SqlToken.tokenize text)).flatMap fun statement =>
      (definitions statement).flatMap (·.indexedColumns file)
  else []

end IndexStatement

end IndexAudit
