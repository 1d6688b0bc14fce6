import IndexAudit.Query.Jpql

/-!
Column references in native SQL queries.

Only conditions, the equalities of joins and the order of results are looked at.
Other columns are none that a lookup needs an index for, or cannot be told from expressions.
-/

namespace IndexAudit

namespace Native

/-- Words that are never a column. -/
def nonColumns : List String :=
  ["true", "false", "null", "and", "or", "not", "exists", "select", "case", "when", "then",
    "else", "end", "all", "any", "some", "distinct", "current_date", "current_timestamp", "now",
    "interval", "cast", "row", "array"]

/-- Words that may follow a table name and are no alias, nor a table themselves. -/
def reserved : List String :=
  ["where", "join", "left", "right", "inner", "outer", "full", "cross", "natural", "lateral",
    "on", "using", "order", "group", "by", "having", "set", "limit", "offset", "fetch", "for",
    "union", "except", "intersect", "window", "returning", "as", "and", "or", "values", "select",
    "from", "with"]

/-- Keywords that end the condition of a join or the order of results. -/
def clauseEnds : List String :=
  ["where", "join", "left", "right", "inner", "outer", "full", "cross", "group", "order",
    "having", "limit", "offset", "fetch", "for", "union", "except", "intersect", "returning",
    "window"]

/-- The operators that compare two values. -/
def comparisons : List String :=
  ["=", "==", "<>", "!=", "<", ">", "<=", ">="]

/-- The tables in scope under their names and aliases in lower case, latest first. -/
abbrev Tables := List (String × String)

/-- A column as a query writes it. -/
structure WrittenColumn where
  qualifier : Option String
  column : String
deriving Repr, DecidableEq

/--
The tables that a token list brings into scope.

`declaring` says that a table is due: behind its keyword, or behind a comma between two.
A schema in front of a table name is dropped.
-/
def bind (declaring : Bool) (tables : Tables) (tokens : List SqlToken) : Tables :=
  if declaring then
    let path := Jpql.readPath tokens
    match found : path.1.getLast? with
    -- Without a name behind it, as in front of a subquery, the keyword binds nothing.
    | none => bind false tables tokens
    | some table =>
      have shorter : path.2.length < tokens.length :=
        Jpql.readPath_length_lt fun empty => by simp [path, empty] at found
      if reserved.contains (lower table) then bind false tables path.2
      else
        let named := Jpql.readAlias reserved path.2
        have notLonger : named.2.length ≤ path.2.length := Jpql.readAlias_length _ _
        -- A table is in scope by its own name too, beside its alias.
        let withName := (lower table, table) :: tables
        let tables := match named.1 with
          | some name => (name, table) :: withName
          | none => withName
        match rest : named.2 with
        | .punctuation ',' :: after =>
          have : after.length < tokens.length := by
            simp only [rest, List.length_cons] at notLonger
            omega
          bind true tables after
        | after =>
          have : after.length < tokens.length := by
            rw [rest] at notLonger
            omega
          bind false tables after
  else
    match tokens with
    | [] => tables
    | token :: rest => bind (Jpql.introduces token) tables rest
termination_by (tokens.length, declaring.toNat)

/-- The column at the start of a token list, with its qualifier, and what follows it. -/
def readColumn? (tokens : List SqlToken) : Option (WrittenColumn × List SqlToken) :=
  match tokens with
  | first :: .punctuation '.' :: second :: rest => do
    let qualifier ← first.ident?
    let column ← second.ident?
    some (⟨some qualifier, column⟩, rest)
  | first :: rest =>
    -- The text ends at the dot, so the column is missing.
    if rest.head? = some (.punctuation '.') then none
    else first.ident?.map fun column => (⟨none, column⟩, rest)
  | [] => none

/-- Whether a predicate operator begins a token list. -/
def startsOperator : List SqlToken → Bool
  | [] => false
  | token :: rest =>
    comparisons.any (token == .operator ·) ||
      token.isOneOf ["is", "in", "between", "like", "ilike"] ||
      (token.isKeyword "not" && rest.head?.any (·.isOneOf ["in", "between", "like", "ilike"]))

/-- The columns right behind `WHERE`, `AND` or `OR` that a predicate operator follows. -/
def conditionColumns : List SqlToken → List WrittenColumn
  | [] => []
  | token :: rest =>
    let here :=
      if token.isOneOf ["where", "and", "or"] then
        -- Parentheses that group conditions may stand in front of the first one.
        match readColumn? (rest.dropWhile (· == .punctuation '(')) with
        | some (column, after) => if startsOperator after then [column] else []
        | none => []
      else []
    here ++ conditionColumns rest

/-- How many tokens belong to the clause that a token list begins with. -/
def clauseLength (depth : Nat) : List SqlToken → Nat
  | [] => 0
  | token :: rest =>
    match token.nest, depth with
    | .opens, _ => clauseLength (depth + 1) rest + 1
    | .closes, 0 => 0
    | .closes, outer + 1 => clauseLength outer rest + 1
    | .level, 0 =>
      if token = .punctuation ';' || token.isOneOf clauseEnds then 0 else clauseLength 0 rest + 1
    | .level, inner + 1 => clauseLength (inner + 1) rest + 1

/-- The column that ends a list of tokens given in reverse order. -/
def columnBefore? (before : List SqlToken) : Option WrittenColumn := do
  let column ← (← before.head?).ident?
  let qualifier := match before with
    | _ :: .punctuation '.' :: first :: _ => first.ident?
    | _ => none
  some ⟨qualifier, column⟩

/--
Both sides of the equalities in the conditions of joins, identifiers included.

`before` holds the tokens passed, in reverse order, and `left` how many of the condition remain.
-/
def equalityColumns (before : List SqlToken) (left : Nat) : List SqlToken → List WrittenColumn
  | [] => []
  | token :: rest =>
    match left with
    | left + 1 =>
      let here :=
        if token = .operator "=" then
          (columnBefore? before).toList ++ ((readColumn? rest).map (·.1)).toList
        else []
      here ++ equalityColumns (token :: before) left rest
    -- Only outside of a condition does `ON` begin one.
    | 0 =>
      equalityColumns (token :: before)
        (if token.isKeyword "on" then clauseLength 0 rest else 0) rest

/-- The columns that joins compare; identifiers are indexed anyway and are left out. -/
def joinColumns (tokens : List SqlToken) : List WrittenColumn :=
  (equalityColumns [] 0 tokens).filter fun written =>
    !eqIgnoringAsciiCase written.column idField

/-- The column that one item of an order consists of, if no expression surrounds it. -/
def sortColumn? (item : List SqlToken) : Option WrittenColumn := do
  let (column, after) ← readColumn? item
  if after.all (·.isOneOf ["asc", "desc", "nulls", "first", "last"]) then some column else none

/-- The columns that results are ordered by; `left` tokens are passed over first. -/
def orderColumns (left : Nat) : List SqlToken → List WrittenColumn
  | [] => []
  | token :: rest =>
    match left with
    | left + 1 => orderColumns left rest
    | 0 =>
      if token.isKeyword "order" && rest.head?.any (·.isKeyword "by") then
        let clause := rest.drop 1
        let size := clauseLength 0 clause
        (SqlToken.splitCommas (clause.take size)).filterMap sortColumn? ++
          orderColumns (size + 1) rest
      else orderColumns 0 rest

/-- The tables that names in scope stand for, each once; only a name's latest meaning counts. -/
def distinctTables (tables : Tables) : List String :=
  ((tables.filter fun entry => tables.lookup entry.1 == some entry.2).map (·.2)).eraseDups

/--
The table that a written column belongs to, if the query is known to mean that column.

With one table in scope, or none, a column belongs to it, or to the entity's table.
With several, only a qualified column of the entity's table does.
-/
def tableOf? (tables : Tables) (entityTable : String) (written : WrittenColumn) : Option String :=
  let bound := written.qualifier.bind fun name => tables.lookup (lower name)
  match distinctTables tables, written.qualifier with
  | [], _ => some entityTable
  | [only], none => some only
  -- A qualifier that stands for nothing, or for another table, takes the column out.
  | [only], some _ => if bound = some only then some only else none
  | _, none => none
  | _, some _ => bound.filter fun table => lower table == lower entityTable

/--
The columns that a native query on an entity's table looks rows up by.

Conditions come first, then joins, then the order.
-/
def columns (entityTable : String) (query : String) : List ColumnReference :=
  let tokens := SqlToken.ofString query
  let tables := bind false [] tokens
  let written := conditionColumns tokens ++ joinColumns tokens ++ orderColumns 0 tokens
  (written.filter fun column => !nonColumns.contains (lower column.column)).filterMap
    fun column => (tableOf? tables entityTable column).map (⟨·, column.column⟩)

end Native

end IndexAudit
