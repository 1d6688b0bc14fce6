import IndexAudit.Proofs.Sql.Nesting
import IndexAudit.Sql.IndexStatement

/-!
Statements that define indexes: what they say, and the ways to write them.

A statement creates an index, or a table with its keys, or adds keys to a table. The items of an
index are read back as its columns: an item is a column if only modifiers follow a name, and
brackets make it an expression, which keeps its place among the items.
-/

namespace IndexAudit

namespace IndexStatement

open SqlToken
open scoped Computability

/-- The words that mean something in a statement, all in lower case. -/
def keywords : List String :=
  ["create", "unique", "index", "table", "alter", "concurrently", "if", "not", "exists", "on",
    "only", "using", "where", "add", "constraint", "primary", "key"]

/-- The name of an index, a table or a column; one that is bare is no keyword. -/
def name (text : String) : Language SqlToken :=
  {tokens | ∃ token : SqlToken, token.ident? = some text ∧ token.isOneOf keywords = false ∧
    tokens = [token]}

/-- A name that nothing is known about. -/
def someName : Language SqlToken :=
  {tokens | ∃ text, tokens ∈ name text}

/-- A name behind those of the schemas that it is in. -/
def qualified (text : String) : Language SqlToken :=
  (someName * lone (.punctuation '.'))∗ * name text

/-- A name that nothing is known about, behind those of the schemas that it is in. -/
def someQualified : Language SqlToken :=
  {tokens | ∃ text, tokens ∈ qualified text}

/-- A name that may be left out. -/
def optionalName : Option String → Language SqlToken
  | none => 1
  | some text => name text

/-- Anything in brackets, as long as its own brackets match. -/
def group : Language SqlToken :=
  {tokens | ∃ inside, Balanced inside ∧ .punctuation ';' ∉ inside ∧
    tokens = .punctuation '(' :: (inside ++ [.punctuation ')'])}

/-- An item of an index. -/
inductive IndexItem where
  /-- A column of the table. -/
  | column (name : String)
  /-- The call of a function. -/
  | call
  /-- An expression in brackets. -/
  | expression
deriving Repr, DecidableEq

namespace IndexItem

/-- The column that an item is. -/
def column? : IndexItem → Option String
  | column name => some name
  | _ => none

/-- Whether an item begins with a name. -/
def isNamed : IndexItem → Bool
  | expression => false
  | _ => true

/-- The class of operators that an index compares a column by. -/
def operatorClass : Language SqlToken :=
  {tokens | ∃ text : String, "_ops".toList <:+ text.toList.map Char.toLower ∧
    tokens = [.word text]}

/-- The name of a collation, in quotes. -/
def collation : Language SqlToken :=
  {tokens | ∃ text : String, tokens = [.quoted text]}

/-- What may be said of an item: its direction, the place of nulls, its collation and class. -/
def modifier : Language SqlToken :=
  keyword "asc" + keyword "desc" + keyword "nulls" * (keyword "first" + keyword "last") +
    keyword "collate" * collation + operatorClass

/-- The way to write what stands in the place of a column. -/
def subject : IndexItem → Language SqlToken
  | column name => identifier name
  | call => someQualified * group
  | expression => group

/-- The ways to write an item. -/
def written (item : IndexItem) : Language SqlToken :=
  item.subject * modifier∗

end IndexItem

/-- The items of an index in brackets, of which there is at least one. -/
def itemList : List IndexItem → Language SqlToken
  | [] => 0
  | items => lone (.punctuation '(') * listed IndexItem.written items * lone (.punctuation ')')

/-- The items of an index in brackets, each of which begins with a name. -/
def namedItems (items : List IndexItem) : Language SqlToken :=
  {tokens | (∀ item ∈ items, item.isNamed) ∧ tokens ∈ itemList items}

/-- A key or an index among the elements of a table. -/
inductive TableKey where
  | primary (given : Option String) (items : List IndexItem)
  /-- A unique key may have a name as a constraint, and one of its own. -/
  | unique (given own : Option String) (items : List IndexItem)
  | index (own : Option String) (items : List IndexItem)
deriving Repr, DecidableEq

namespace TableKey

/-- The name of a constraint, if it has one. -/
def constraint : Option String → Language SqlToken
  | none => 1
  | some given => keyword "constraint" * identifier given

/-- The ways to write a key; each item of a plain index begins with a name. -/
def written : TableKey → Language SqlToken
  | primary given items => constraint given * (keyword "primary" * keyword "key") * itemList items
  | unique given own items =>
    constraint given * (keyword "unique" * optional (keyword "key" + keyword "index")) *
      optionalName own * itemList items
  | index own items => (keyword "index" + keyword "key") * optionalName own * namedItems items

/-- The index behind a key of a table. -/
def definition (table : String) : TableKey → IndexDefinition
  | primary given items =>
    ⟨given.getD (IndexDefinition.primaryKeyName table), table, items.map (·.column?), true, false⟩
  | unique given own items =>
    ⟨(given.or own).getD (IndexDefinition.generatedName table (items.map (·.column?)) "key"), table,
      items.map (·.column?), true, false⟩
  | index own items =>
    ⟨own.getD (IndexDefinition.generatedName table (items.map (·.column?)) "idx"), table,
      items.map (·.column?), false, false⟩

end TableKey

/-- What a column of a table declares of itself. -/
inductive ColumnRule where
  | plain
  | primary
  | unique
deriving Repr, DecidableEq

/-- The ways to write what a column declares of itself. -/
def ColumnRule.written : ColumnRule → Language SqlToken
  | plain => 1
  | primary => keyword "primary" * keyword "key"
  | unique => keyword "unique"

/-- An element of a table. -/
inductive TableElement where
  | key (declared : TableKey)
  | column (name : String) (rule : ColumnRule)
deriving Repr, DecidableEq

namespace TableElement

/-- The type of a column, its default and the like: anything that declares no key. -/
def attributes : Language SqlToken :=
  {tokens | IsPart tokens ∧
    ∀ token ∈ tokens, token ≠ .punctuation ';' ∧ token.isOneOf ["primary", "unique"] = false}

/-- The ways to write an element. -/
def written : TableElement → Language SqlToken
  | key declared => declared.written
  | column text rule => name text * attributes * rule.written * attributes

/-- The index behind an element of a table, if it has one. -/
def definition? (table : String) : TableElement → Option IndexDefinition
  | key declared => some (declared.definition table)
  | column _ .plain => none
  | column text .primary =>
    some (.ofUniqueColumn (IndexDefinition.primaryKeyName table) table text)
  | column text .unique =>
    some (.ofUniqueColumn (IndexDefinition.uniqueColumnName table text) table text)

end TableElement

/-- A statement that defines indexes. -/
inductive Statement where
  | createIndex (isUnique : Bool) (given : Option String) (table : String)
    (items : List IndexItem) (isPartial : Bool)
  | createTable (table : String) (elements : List TableElement)
  | alterTable (table : String) (keys : List TableKey)
deriving Repr, DecidableEq

namespace Statement

/-- The name of a created index behind its schemas, if it has one. -/
def indexName : Option String → Language SqlToken
  | none => 1
  | some given => qualified given

/-- Anything that ends no statement. -/
def anything : Language SqlToken :=
  {tokens | .punctuation ';' ∉ tokens}

/-- What stands behind the items of an index; a condition makes the index a partial one. -/
def tail (isPartial : Bool) : Language SqlToken :=
  {tokens | tokens ∈ anything ∧ tokens.any (·.isKeyword "where") = isPartial}

/-- The words for what is there already. -/
def ifNotExists : Language SqlToken :=
  keyword "if" * (keyword "not" * keyword "exists")

/-- What stands behind the words that create an index. -/
def indexBody (given : Option String) (table : String) (items : List IndexItem)
    (isPartial : Bool) : Language SqlToken :=
  optional (keyword "concurrently") * optional ifNotExists * indexName given * keyword "on" *
    optional (keyword "only") * qualified table * optional (keyword "using" * someName) *
    itemList items * tail isPartial

/-- What stands behind the words that create a table. -/
def tableBody (table : String) (elements : List TableElement) : Language SqlToken :=
  optional ifNotExists * qualified table *
    (lone (.punctuation '(') * listed TableElement.written elements * lone (.punctuation ')')) *
    anything

/-- What stands behind the words that alter a table. -/
def keysBody (table : String) (keys : List TableKey) : Language SqlToken :=
  optional (keyword "only") * optional (keyword "if" * keyword "exists") * qualified table *
    listed (fun key => keyword "add" * TableKey.written key) keys

/-- The ways to write a statement. -/
def written : Statement → Language SqlToken
  | createIndex isUnique given table items isPartial =>
    keyword "create" * (if isUnique then keyword "unique" else 1) * keyword "index" *
      indexBody given table items isPartial
  | createTable table elements => keyword "create" * keyword "table" * tableBody table elements
  | alterTable table keys => keyword "alter" * keyword "table" * keysBody table keys

/-- The indexes that a statement defines, in order. -/
def definitions : Statement → List IndexDefinition
  | createIndex isUnique given table items isPartial =>
    let columns := items.map (·.column?)
    [⟨given.getD (IndexDefinition.generatedName table columns "idx"), table, columns, isUnique,
      isPartial⟩]
  | createTable table elements => elements.filterMap (·.definition? table)
  | alterTable table keys => keys.map (·.definition table)

end Statement

/-! Items read back as columns. -/

/-- What stands in brackets is read up to the bracket that closes them. -/
theorem readBracketed?_group {inside : List SqlToken} (inner : Balanced inside)
    (rest : List SqlToken) :
    readBracketed? (.punctuation '(' :: (inside ++ .punctuation ')' :: rest)) =
      some (inside, rest) := by
  -- The closing bracket stands right behind what the brackets hold.
  have closed := closeIndex_group inner rest
  have behind : (inside ++ .punctuation ')' :: rest).drop (inside.length + 1) = rest := by
    simp [← List.drop_drop]
  simp [readBracketed?, closed, behind]

/-- A name is one token. -/
theorem mem_name {text : String} {tokens : List SqlToken} (written : tokens ∈ name text) :
    ∃ token : SqlToken, token.ident? = some text ∧ token.isOneOf keywords = false ∧
      tokens = [token] :=
  written

/-- The tokens of a name are plain. -/
theorem isPlain_name (text : String) : Each IsPlain (name text) := by
  -- A name is one token.
  rintro tokens ⟨only, named, -, rfl⟩ token member
  obtain rfl := List.mem_singleton.mp member
  exact isPlain_of_ident named

/-- The tokens of an identifier are plain. -/
theorem isPlain_identifier (text : String) : Each IsPlain (identifier text) := by
  intro tokens written token member
  -- An identifier is one token with a name.
  obtain ⟨only, named, rfl⟩ := mem_identifier.mp written
  obtain rfl := List.mem_singleton.mp member
  exact isPlain_of_ident named

/-- The tokens of a name that nothing is known about are plain. -/
theorem isPlain_someName : Each IsPlain someName := by
  rintro tokens ⟨text, written⟩
  exact isPlain_name text tokens written

/-- The tokens of schemas are plain. -/
theorem isPlain_schemas : Each IsPlain (someName * lone (.punctuation '.'))∗ :=
  -- Names and dots are plain, as often as they come.
  (isPlain_someName.mul (.lone isPlain_dot)).star

/-- The tokens of a name with its schemas are plain. -/
theorem isPlain_qualified (text : String) : Each IsPlain (qualified text) :=
  isPlain_schemas.mul (isPlain_name text)

/-- A group is one part, whatever is in its brackets. -/
theorem isPart_group {tokens : List SqlToken} (written : tokens ∈ group) : IsPart tokens := by
  -- The brackets match around what is balanced.
  obtain ⟨inside, inner, -, rfl⟩ := written
  exact .group inner .nil

/-- A token that ends no statement. -/
def GoesOn (token : SqlToken) : Prop :=
  token ≠ .punctuation ';'

/-- A statement does not end in plain tokens. -/
theorem goesOn_of_isPlain {phrase : Language SqlToken} (plain : Each IsPlain phrase) :
    Each GoesOn phrase :=
  plain.mono fun _ isPlain => isPlain.noEnd

/-- A statement does not end in a group. -/
theorem goesOn_group : Each GoesOn group := by
  rintro tokens ⟨inside, -, goesOn, rfl⟩ token member rfl
  simp only [List.mem_cons, List.mem_append, List.not_mem_nil, or_false,
    punctuation.injEq] at member
  -- The brackets are no end, and by definition there is none inside.
  rcases member with bracket | inside | bracket
  · exact absurd bracket (by decide)
  · exact goesOn inside
  · exact absurd bracket (by decide)

/-- A name begins with a name, be it that of a schema. -/
theorem qualified_begins {text : String} {tokens : List SqlToken}
    (written : tokens ∈ qualified text) :
    ∃ first rest, tokens = first :: rest ∧ first.ident?.isSome = true ∧
      first.isOneOf keywords = false := by
  obtain ⟨schemas, areSchemas, last, isName, rfl⟩ := written
  obtain ⟨token, named, free, rfl⟩ := mem_name isName
  obtain ⟨parts, rfl, all⟩ := Language.mem_kstar.mp areSchemas
  -- The first name is that of a schema unless there is none.
  cases parts with
  | nil => exact ⟨token, [], rfl, by simp [named], free⟩
  | cons part parts =>
    obtain ⟨_, ⟨other, isOther⟩, _, rfl, rfl⟩ := all part (by simp)
    obtain ⟨first, namedFirst, freeFirst, rfl⟩ := mem_name isOther
    exact ⟨first, _, rfl, by simp [namedFirst], freeFirst⟩

namespace IndexItem

/-- A keyword among the modifiers leaves an item a column. -/
theorem isModifier_keyword {word : String} (lowered : word.toList.map Char.toLower = word.toList)
    (listed : word ∈ columnModifiers) :
    Each (fun token => isModifier token = true) (keyword word) := by
  refine .keyword fun token found => ?_
  -- The modifiers are listed in lower case, which is the form that the token is compared in.
  cases token with
  | word text =>
    have same : text.toList.map Char.toLower = word.toList := (eq_of_beq found).trans lowered
    simp [isModifier, same, listed]
  | _ => simp [isKeyword] at found

/-- Modifiers leave an item a column. -/
theorem isModifier_modifier : Each (fun token => isModifier token = true) modifier := by
  have word : ∀ own ∈ columnModifiers, Each (fun token => isModifier token = true) (keyword own) :=
    fun own listed => isModifier_keyword (by revert own; decide) listed
  have collated : Each (fun token => isModifier token = true) collation := by
    rintro tokens ⟨text, rfl⟩ token member
    obtain rfl := List.mem_singleton.mp member
    rfl
  -- An operator class is told by the end of its name.
  have classed : Each (fun token => isModifier token = true) operatorClass := by
    rintro tokens ⟨text, ending, rfl⟩ token member
    obtain rfl := List.mem_singleton.mp member
    simpa [isModifier] using Or.inr ending
  have placed := (word "nulls" (by decide)).mul
    ((word "first" (by decide)).add (word "last" (by decide)))
  exact ((((word "asc" (by decide)).add (word "desc" (by decide))).add placed).add
    ((word "collate" (by decide)).mul collated)).add classed

/-- The tokens of modifiers are plain. -/
theorem isPlain_modifier : Each IsPlain modifier := by
  -- Modifiers are keywords and names.
  have word : ∀ own, Each IsPlain (keyword own) := fun _ => isPlain_keyword
  have collated : Each IsPlain collation := by
    rintro tokens ⟨text, rfl⟩ token member
    obtain rfl := List.mem_singleton.mp member
    exact isPlain_of_ident rfl
  have classed : Each IsPlain operatorClass := by
    rintro tokens ⟨text, -, rfl⟩ token member
    obtain rfl := List.mem_singleton.mp member
    exact isPlain_of_ident rfl
  exact ((((word "asc").add (word "desc")).add
    ((word "nulls").mul ((word "first").add (word "last")))).add
      ((word "collate").mul collated)).add classed

/-- An item is one part of its list. -/
theorem isPart_written {item : IndexItem} {tokens : List SqlToken}
    (written : tokens ∈ item.written) : IsPart tokens := by
  obtain ⟨front, isSubject, behind, areModifiers, rfl⟩ := written
  refine IsPart.append ?_ (isPart_of_isPlain (isPlain_modifier.star behind areModifiers))
  -- Behind its subject, an item has modifiers alone, and they are plain.
  cases item with
  | column text => exact isPart_of_isPlain (isPlain_identifier text front isSubject)
  | call =>
    obtain ⟨path, ⟨text, isPath⟩, brackets, isGroup, rfl⟩ := isSubject
    exact (isPart_of_isPlain (isPlain_qualified text path isPath)).append (isPart_group isGroup)
  | expression => exact isPart_group isSubject

/-- A statement does not end in an item. -/
theorem goesOn_written (item : IndexItem) : Each GoesOn item.written := by
  refine Each.mul ?_ (goesOn_of_isPlain isPlain_modifier).star
  have path : Each GoesOn someQualified := by
    rintro tokens ⟨text, written⟩
    exact goesOn_of_isPlain (isPlain_qualified text) tokens written
  -- Subjects are names, groups, or a name in front of a group.
  cases item with
  | column text => exact goesOn_of_isPlain (isPlain_identifier text)
  | call => exact path.mul goesOn_group
  | expression => exact goesOn_group

/-- A bracket is no modifier, so nothing with a group in it is a column. -/
theorem all_isModifier_group {before brackets : List SqlToken} (isGroup : brackets ∈ group)
    (behind : List SqlToken) : (before ++ (brackets ++ behind)).all isModifier = false := by
  -- The opening bracket is one of the tokens.
  obtain ⟨inside, -, -, rfl⟩ := isGroup
  simp [isModifier]

/-- An item is read as the column that it is, or as none. -/
theorem itemColumn?_written {item : IndexItem} {tokens : List SqlToken}
    (written : tokens ∈ item.written) : itemColumn? tokens = item.column? := by
  obtain ⟨front, isSubject, behind, areModifiers, rfl⟩ := written
  cases item with
  | column text =>
    obtain ⟨token, named, rfl⟩ := mem_identifier.mp isSubject
    have modified : behind.all isModifier = true :=
      List.all_eq_true.mpr (isModifier_modifier.star behind areModifiers)
    simp [itemColumn?, modified, named, column?]
  | call =>
    obtain ⟨path, ⟨text, isPath⟩, brackets, isGroup, rfl⟩ := isSubject
    obtain ⟨first, rest, rfl, -, -⟩ := qualified_begins isPath
    -- Behind the name of a call there is a bracket, which modifies nothing.
    have unmodified : (rest ++ (brackets ++ behind)).all isModifier = false :=
      all_isModifier_group isGroup behind
    simp only [List.cons_append, List.append_assoc]
    rw [itemColumn?, unmodified]
    rfl
  | expression =>
    obtain ⟨inside, -, -, rfl⟩ := isSubject
    simp [itemColumn?, ident?, column?]

/-- An item that is no expression in brackets begins with a name. -/
theorem head?_written {item : IndexItem} {tokens : List SqlToken} (written : tokens ∈ item.written)
    (isNamed : item.isNamed = true) : (tokens.head?.bind (·.ident?)).isSome = true := by
  obtain ⟨front, isSubject, behind, -, rfl⟩ := written
  -- A column is a name, and a call begins with one.
  cases item with
  | column text =>
    obtain ⟨token, named, rfl⟩ := mem_identifier.mp isSubject
    simp [named]
  | call =>
    obtain ⟨path, ⟨text, isPath⟩, brackets, -, rfl⟩ := isSubject
    obtain ⟨first, rest, rfl, named, -⟩ := qualified_begins isPath
    simpa using named
  | expression => contradiction

end IndexItem

end IndexStatement

end IndexAudit
