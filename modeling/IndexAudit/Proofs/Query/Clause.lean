import IndexAudit.Proofs.Sql.Nesting
import IndexAudit.Proofs.Sql.Phrase
import IndexAudit.Query.Native

/-!
Plain select statements, and what the readers of columns make of their clauses.

Such a statement joins tables by equalities, compares columns with literals and parameters, and
orders its results by columns. Each reader passes over the tokens that have none of its keywords,
and reads its own clause up to where the next one begins.
-/

namespace IndexAudit

namespace Native

open SqlToken
open scoped Computability

/-- The words that mean something in a query, all in lower case. -/
def keywords : List String :=
  reserved ++ clauseEnds ++ nonColumns ++
    ["update", "is", "in", "between", "like", "ilike", "asc", "desc", "nulls", "first", "last"]

/-- A table that a statement reads, under another name if it is given one. -/
structure TableUse where
  table : String
  knownAs : Option String
deriving Repr, DecidableEq

/-- A table that is joined, with the two columns that are compared for it. -/
structure Join where
  use : TableUse
  left : WrittenColumn
  right : WrittenColumn
deriving Repr, DecidableEq

/-- A plain select statement. -/
structure Select where
  first : TableUse
  joins : List Join
  /-- The columns compared in its conditions, in order. -/
  conditions : List WrittenColumn
  /-- The columns that its results are ordered by. -/
  order : List WrittenColumn
deriving Repr, DecidableEq

/-- The name of a table or a column, which is no keyword. -/
def name (text : String) : Language SqlToken :=
  {tokens | lower text ∉ keywords ∧ tokens ∈ identifier text}

/-- A column, behind its qualifier if it has one. -/
def column (written : WrittenColumn) : Language SqlToken :=
  match written.qualifier with
  | none => name written.column
  | some qualifier => name qualifier * lone (.punctuation '.') * name written.column

/-- A number with or without a sign, a text, a truth value or nothing. -/
def literal : Language SqlToken :=
  optional (lone (.operator "-") + lone (.operator "+")) * lone .number + lone .string +
    keyword "null" + keyword "true" + keyword "false"

/-- A literal or a parameter. -/
def operand : Language SqlToken :=
  literal + lone .parameter

/-- One of the operators that compare two values. -/
def comparison : Language SqlToken :=
  {tokens | ∃ text ∈ comparisons, tokens = [.operator text]}

/-- What a condition says of its column, other than that it lies between two bounds. -/
def simpleTest : Language SqlToken :=
  comparison * operand +
    keyword "is" * optional (keyword "not") * keyword "null" +
    optional (keyword "not") * keyword "in" * lone (.punctuation '(') *
      optional (operand * (lone (.punctuation ',') * operand)∗) * lone (.punctuation ')') +
    optional (keyword "not") * (keyword "like" + keyword "ilike") * operand

/-- The bounds that a column lies between. -/
def range : Language SqlToken :=
  optional (keyword "not") * keyword "between" * operand * keyword "and" * operand

/-- What a condition says of its column. -/
def test : Language SqlToken :=
  simpleTest + range

/-- Conditions behind another one, each with the word that connects it. -/
def connected : List WrittenColumn → Language SqlToken
  | [] => 1
  | written :: rest => (keyword "and" + keyword "or") * column written * test * connected rest

/-- The conditions of a statement, if it has any. -/
def whereClause : List WrittenColumn → Language SqlToken
  | [] => 1
  | written :: rest => keyword "where" * column written * test * connected rest

/-- A column to order by, with the direction and the place of nulls if they are given. -/
def sortKey (written : WrittenColumn) : Language SqlToken :=
  column written * optional (keyword "asc" + keyword "desc") *
    optional (keyword "nulls" * (keyword "first" + keyword "last"))

/-- The order of the results, if there is one. -/
def orderClause : List WrittenColumn → Language SqlToken
  | [] => 1
  | written :: rest => keyword "order" * keyword "by" * listed sortKey (written :: rest)

/-- A table with its alias, if it has one. -/
def TableUse.written (use : TableUse) : Language SqlToken :=
  name use.table * optional (keyword "as") *
    match use.knownAs with
    | none => 1
    | some given => name given

/-- The joins of a statement. -/
def joinClauses : List Join → Language SqlToken
  | [] => 1
  | join :: rest =>
    keyword "join" * join.use.written * keyword "on" * column join.left * lone (.operator "=") *
      column join.right * joinClauses rest

/-- The ways to write a select statement. -/
def Select.written (select : Select) : Language SqlToken :=
  keyword "select" * lone (.operator "*") * keyword "from" * select.first.written *
    joinClauses select.joins * whereClause select.conditions * orderClause select.order *
    optional (keyword "limit" * operand)

namespace Select

/-- The tables that a statement reads, in order. -/
def uses (select : Select) : List TableUse :=
  select.first :: select.joins.map (·.use)

/-- The columns that joins compare; identifiers are indexed anyway and are left out. -/
def compared (select : Select) : List WrittenColumn :=
  (select.joins.flatMap fun join => [join.left, join.right]).filter fun written =>
    !eqIgnoringAsciiCase written.column idField

/-- The columns that a statement looks rows up by: its conditions, its joins and its order. -/
def references (select : Select) : List WrittenColumn :=
  select.conditions ++ select.compared ++ select.order

end Select

/-- Whether a qualifier names a table that is read, by its alias or by its own name. -/
def TableUse.IsNamed (use : TableUse) (qualifier : String) : Prop :=
  lower use.table = lower qualifier ∨ ∃ given ∈ use.knownAs, lower given = lower qualifier

/-- Names are compared in lower case. -/
instance (use : TableUse) (qualifier : String) : Decidable (use.IsNamed qualifier) :=
  inferInstanceAs (Decidable (lower use.table = lower qualifier ∨
    ∃ given ∈ use.knownAs, lower given = lower qualifier))

/--
A statement in which each name means one table.

Letter case is ignored. The same table may be read more than once, under any aliases.
-/
structure Select.IsScoped (select : Select) : Prop where
  /-- No alias is given twice. -/
  aliases : ((select.uses.filterMap (·.knownAs)).map lower).Nodup
  /-- No alias is the name of a table. -/
  apart : ∀ use ∈ select.uses, ∀ given ∈ use.knownAs, ∀ other ∈ select.uses,
    lower given ≠ lower other.table
  /-- Two tables differ by more than letter case. -/
  tables : ∀ use ∈ select.uses, ∀ other ∈ select.uses,
    lower use.table = lower other.table → use.table = other.table
  /-- Each qualifier names a table that is read. -/
  qualifiers : ∀ written ∈ select.conditions ++
      (select.joins.flatMap fun join => [join.left, join.right]) ++ select.order,
    ∀ qualifier ∈ written.qualifier, ∃ use ∈ select.uses, use.IsNamed qualifier

/-- The columns of a table that a statement refers to by its name or an alias. -/
def Select.columnsOf (select : Select) (table : String) : List ColumnReference :=
  select.references.filterMap fun written => do
    let qualifier ← written.qualifier
    let use ← select.uses.find? fun use => use.IsNamed qualifier
    if lower use.table = lower table then some ⟨use.table, written.column⟩ else none

/-! Clauses and their readers. -/

/-- Each word that means something is plain. -/
theorem keywords_plain : ∀ word ∈ keywords, IsPlainWord word := by
  -- The list of keywords is fixed, so each of them is looked at.
  decide +kernel

/-- A name is one token, and no keyword. -/
theorem mem_name {text : String} {tokens : List SqlToken} (written : tokens ∈ name text) :
    lower text ∉ keywords ∧ ∃ token : SqlToken, token.ident? = some text ∧ tokens = [token] :=
  ⟨written.1, mem_identifier.mp written.2⟩

/-- The tokens of a phrase that are none of some keywords. -/
def Lacks (words : List String) (phrase : Language SqlToken) : Prop :=
  Each (fun token => token.isOneOf words = false) phrase

section Lacks

variable {words : List String}

/-- A token that names nothing lacks all keywords. -/
theorem lacks_lone {token : SqlToken} (nameless : token.ident? = none) :
    Lacks words (lone token) :=
  .lone (isOneOf_of_nameless nameless)

/-- A name lacks all keywords. -/
theorem lacks_name (known : words ⊆ keywords) (text : String) : Lacks words (name text) := by
  rintro tokens written token member
  -- A keyword in a name would be its only token, but names are none of them.
  obtain ⟨apart, only, named, rfl⟩ := mem_name written
  obtain rfl := List.mem_singleton.mp member
  exact isOneOf_of_ident named (fun word listed => keywords_plain word (known listed))
    fun listed => apart (known listed)

/-- A keyword lacks all others. -/
theorem lacks_keyword (known : words ⊆ keywords) {own : String} (plain : IsPlainWord own)
    (apart : own ∉ words) : Lacks words (keyword own) := by
  -- The one token of a keyword is this word, which is none of the others.
  refine .keyword fun token found => ?_
  obtain ⟨text, rfl, same⟩ := eq_word_of_isKeyword plain found
  exact isOneOf_of_ident rfl (fun word listed => keywords_plain word (known listed)) (same ▸ apart)

/-- A column lacks all keywords. -/
theorem lacks_column (known : words ⊆ keywords) (written : WrittenColumn) :
    Lacks words (column written) := by
  -- A column is a name, or two with a dot in between.
  unfold column
  split
  · exact lacks_name known _
  · exact ((lacks_name known _).mul (lacks_lone rfl)).mul (lacks_name known _)

/-- A table with its alias has no keyword but the one between them. -/
theorem lacks_use (known : words ⊆ keywords) (apart : "as" ∉ words) (use : TableUse) :
    Lacks words use.written := by
  -- It is a name, the keyword perhaps, and a name again if there is an alias.
  refine ((lacks_name known _).mul (lacks_keyword known (by decide) apart).optional).mul ?_
  cases use.knownAs with
  | none => exact .one
  | some given => exact lacks_name known given

/-- An operand has no keywords but those of literals. -/
theorem lacks_operand (known : words ⊆ keywords)
    (apart : ∀ own ∈ ["null", "true", "false"], own ∉ words) : Lacks words operand := by
  -- Of the operands, three are keywords of their own.
  have own : ∀ own ∈ ["null", "true", "false"], Lacks words (keyword own) := by
    intro own listed
    exact lacks_keyword known (by revert own; decide) (apart own listed)
  have sign : Lacks words (optional (lone (.operator "-") + lone (.operator "+"))) :=
    Each.optional (Each.add (lacks_lone rfl) (lacks_lone rfl))
  exact (((((sign.mul (lacks_lone rfl)).add (lacks_lone rfl)).add (own "null" (by simp))).add
    (own "true" (by simp))).add (own "false" (by simp))).add (lacks_lone rfl)

/-- The keywords of what a condition says of its column, but for the one between bounds. -/
def testWords : List String :=
  ["is", "not", "null", "in", "between", "like", "ilike", "true", "false"]

/-- A test without bounds has no keywords but its own. -/
theorem lacks_simpleTest (known : words ⊆ keywords) (apart : ∀ own ∈ testWords, own ∉ words) :
    Lacks words simpleTest := by
  have own : ∀ own ∈ testWords, Lacks words (keyword own) := by
    intro own listed
    exact lacks_keyword known (by revert own; decide) (apart own listed)
  have operands : Lacks words operand :=
    lacks_operand known fun own listed => apart own (by revert own; decide)
  have compares : Lacks words comparison := by
    rintro tokens ⟨text, -, rfl⟩ token member
    obtain rfl := List.mem_singleton.mp member
    exact isOneOf_of_nameless rfl
  have mark : ∀ c, Lacks words (lone (.punctuation c)) := fun c => lacks_lone rfl
  have negated : Lacks words (optional (keyword "not")) := (own "not" (by decide)).optional
  have several : Lacks words (optional (operand * (lone (.punctuation ',') * operand)∗)) :=
    (operands.mul ((mark ',').mul operands).star).optional
  -- Each form of a test is put together from parts that lack the words.
  have nothing := ((own "is" (by decide)).mul negated).mul (own "null" (by decide))
  have among := (((negated.mul (own "in" (by decide))).mul (mark '(')).mul several).mul (mark ')')
  have matched :=
    (negated.mul ((own "like" (by decide)).add (own "ilike" (by decide)))).mul operands
  exact (((compares.mul operands).add nothing).add among).add matched

/-- A test has no keywords but its own. -/
theorem lacks_test (known : words ⊆ keywords) (apart : ∀ own ∈ "and" :: testWords, own ∉ words) :
    Lacks words test := by
  have own : ∀ own ∈ "and" :: testWords, Lacks words (keyword own) := by
    intro own listed
    exact lacks_keyword known (by revert own; decide) (apart own listed)
  have operands : Lacks words operand :=
    lacks_operand known fun own listed => apart own (by revert own; decide)
  -- The one test that holds an `AND` of its own is the range.
  have within := ((((own "not" (by decide)).optional.mul (own "between" (by decide))).mul
    operands).mul (own "and" (by decide))).mul operands
  exact (lacks_simpleTest known fun word listed => apart word (by simp [listed])).add within

end Lacks

/-- The first token of a list, if there is one, is one of some keywords. -/
def Follows (words : List String) (rest : List SqlToken) : Prop :=
  ∀ token ∈ rest.head?, token.isOneOf words = true

/-- A keyword is a bare word, so no mark begins what follows. -/
theorem Follows.head?_ne {words : List String} {rest : List SqlToken} (follows : Follows words rest)
    {mark : SqlToken} (nameless : mark.ident? = none) : rest.head? ≠ some mark := by
  -- The mark would have to name something.
  intro found
  have isOne := follows mark found
  simp [isOneOf_of_nameless nameless] at isOne

/-- Nothing follows at the end. -/
theorem follows_nil {words : List String} : Follows words [] := by
  simp [Follows]

/-- A keyword at the front is what follows. -/
theorem follows_keyword {words : List String} {word : String} {tokens : List SqlToken}
    (written : tokens ∈ keyword word) (listed : words.any (eqIgnoringAsciiCase word ·) = true)
    (rest : List SqlToken) : Follows words (tokens ++ rest) := by
  -- The one token of the keyword comes first.
  obtain ⟨token, found, rfl⟩ := written
  intro other first
  obtain rfl := Option.some.inj first
  rw [isOneOf_keyword found, listed]

/-- What follows is none of the other keywords. -/
theorem Follows.isOneOf_eq {words others : List String} {rest : List SqlToken}
    (follows : Follows words rest)
    (apart : ∀ word ∈ words, others.any (eqIgnoringAsciiCase word ·) = false) :
    ∀ token ∈ rest.head?, token.isOneOf others = false := by
  -- What follows is one of its own words, and none of these is among the others.
  intro token first
  obtain ⟨word, listed, found⟩ := List.any_eq_true.mp (follows token first)
  rw [isOneOf_keyword found, apart word listed]

/-- An identifier that no dot follows is a column by itself. -/
theorem readColumn?_single {token : SqlToken} {rest : List SqlToken}
    (ends : rest.head? ≠ some (.punctuation '.')) :
    readColumn? (token :: rest) = token.ident?.map fun text => (⟨none, text⟩, rest) := by
  -- Only a dot behind the identifier would make it a qualifier.
  rw [readColumn?.eq_def]
  split
  · rename_i same
    obtain ⟨-, rfl⟩ := List.cons.inj same
    simp at ends
  · rename_i same
    obtain ⟨rfl, rfl⟩ := List.cons.inj same
    simp [ends]
  · contradiction

/-- No column begins where nothing is named. -/
theorem readColumn?_of_nameless {token : SqlToken} (nameless : token.ident? = none)
    (rest : List SqlToken) : readColumn? (token :: rest) = none := by
  -- Either way of reading a column begins with a name.
  rw [readColumn?.eq_def]
  split
  · rename_i same
    obtain ⟨rfl, -⟩ := List.cons.inj same
    simp [nameless]
  · rename_i same
    obtain ⟨rfl, -⟩ := List.cons.inj same
    simp [nameless]
  · contradiction

/-- A column is read from where it is written. -/
theorem readColumn?_column {written : WrittenColumn} {tokens rest : List SqlToken}
    (isColumn : tokens ∈ column written) (ends : rest.head? ≠ some (.punctuation '.')) :
    readColumn? (tokens ++ rest) = some (written, rest) := by
  obtain ⟨qualifier, text⟩ := written
  cases qualifier with
  | none =>
    obtain ⟨-, token, named, rfl⟩ := mem_name isColumn
    rw [List.singleton_append, readColumn?_single ends, named]
    rfl
  | some qualifier =>
    -- A qualified column is three tokens: a name, a dot and another name.
    obtain ⟨_, ⟨_, isQualifier, _, rfl, rfl⟩, _, isName, rfl⟩ := isColumn
    obtain ⟨-, first, named, rfl⟩ := mem_name isQualifier
    obtain ⟨-, second, namedToo, rfl⟩ := mem_name isName
    simp [readColumn?, named, namedToo]

/-- A column ends in front of what no dot begins. -/
theorem readColumn?_append {tokens rest : List SqlToken} (filled : tokens ≠ [])
    (ends : tokens.getLast? ≠ some (.punctuation '.'))
    (noDot : rest.head? ≠ some (.punctuation '.')) :
    readColumn? (tokens ++ rest) = (readColumn? tokens).map fun read => (read.1, read.2 ++ rest) := by
  obtain ⟨first, more, rfl⟩ := List.exists_cons_of_ne_nil filled
  by_cases dotted : more.head? = some (.punctuation '.')
  · obtain ⟨after, rfl⟩ := List.head?_eq_some_iff.mp dotted
    cases after with
    | nil => exact absurd rfl ends
    | cons second after =>
      simp only [List.cons_append, readColumn?]
      cases first.ident? <;> cases second.ident? <;> rfl
  -- No dot behind the name, be it the last token or not, so it is the column itself.
  · have apart : (more ++ rest).head? ≠ some (.punctuation '.') := by
      cases more with
      | nil => exact noDot
      | cons next more => exact dotted
    rw [List.cons_append, readColumn?_single apart, readColumn?_single dotted, Option.map_map]
    rfl

/-- A column is read backwards from its end. -/
theorem columnBefore?_column {written : WrittenColumn} {tokens before : List SqlToken}
    (isColumn : tokens ∈ column written) (starts : before.head? ≠ some (.punctuation '.')) :
    columnBefore? (tokens.reverse ++ before) = some written := by
  obtain ⟨qualifier, text⟩ := written
  cases qualifier with
  | none =>
    obtain ⟨-, token, named, rfl⟩ := mem_name isColumn
    simp only [List.reverse_singleton, List.singleton_append, columnBefore?, List.head?_cons]
    -- In front of a bare name there is no dot to go on with.
    split
    · rename_i same
      obtain ⟨-, rfl⟩ := List.cons.inj same
      simp at starts
    · simp [named]
  | some qualifier =>
    obtain ⟨_, ⟨_, isQualifier, _, rfl, rfl⟩, _, isName, rfl⟩ := isColumn
    obtain ⟨-, first, named, rfl⟩ := mem_name isQualifier
    obtain ⟨-, second, namedToo, rfl⟩ := mem_name isName
    simp [columnBefore?, named, namedToo]

end Native

end IndexAudit
