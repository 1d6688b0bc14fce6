import IndexAudit.Proofs.Query.Native

/-!
Words for tables that name none.

The word `UPDATE` of a row lock names no table, and neither does a `FROM` among the arguments of a
function. Yet the word behind either is taken for a table. A statement on one table then has two in
scope, and columns without a qualifier are ambiguous.
-/

namespace IndexAudit

namespace Native

open SqlToken
open scoped Computability

/-! Words behind a statement, of which none is part of a condition, a join or an order. -/

/-- The words behind which, or in front of which, a column could be read. -/
def columnWords : List String :=
  ["where", "and", "or", "on", "order", "is", "in", "between", "like", "ilike", "not"]

/-- Words that are no part of a condition, a join or an order. -/
structure IsQuiet (rest : List SqlToken) : Prop where
  named : ∀ token ∈ rest, token.ident?.isSome = true
  quiet : ∀ token ∈ rest, token.isOneOf columnWords = false

namespace IsQuiet

variable {rest : List SqlToken}

/-- Quiet words are none of the words for columns. -/
theorem isOneOf_eq (isQuiet : IsQuiet rest) {words : List String} (within : words ⊆ columnWords) :
    ∀ token ∈ rest, token.isOneOf words = false := by
  intro token member
  -- A word for columns would not be quiet.
  by_contra found
  have listed := isOneOf_of_subset within (Bool.not_eq_false _ ▸ found)
  rw [isQuiet.quiet token member] at listed
  contradiction

/-- Behind the first of quiet words more of them stand. -/
theorem tail {token : SqlToken} (isQuiet : IsQuiet (token :: rest)) : IsQuiet rest :=
  ⟨fun next member => isQuiet.named next (List.mem_cons_of_mem token member),
    fun next member => isQuiet.quiet next (List.mem_cons_of_mem token member)⟩

/-- No mark is quiet. -/
theorem ne_of_nameless (isQuiet : IsQuiet rest) {mark : SqlToken} (nameless : mark.ident? = none) :
    ∀ token ∈ rest, token ≠ mark := by
  rintro token member rfl
  -- A quiet word names something, and a mark does not.
  have named := isQuiet.named token member
  rw [nameless] at named
  contradiction

/-- No mark is in front of quiet words. -/
theorem head?_ne (isQuiet : IsQuiet rest) {mark : SqlToken} (nameless : mark.ident? = none) :
    rest.head? ≠ some mark := fun first =>
  -- The first word is one of them.
  isQuiet.ne_of_nameless nameless mark (List.mem_of_head? first) rfl

/-- No operator begins behind quiet words. -/
theorem startsOperator_append (isQuiet : IsQuiet rest) (tokens : List SqlToken) :
    startsOperator (tokens ++ rest) = startsOperator tokens := by
  -- A negated operator takes a second word, which may be the first of the quiet ones.
  have negated (more : List SqlToken) :
      (more ++ rest).head?.any (·.isOneOf ["in", "between", "like", "ilike"]) =
        more.head?.any (·.isOneOf ["in", "between", "like", "ilike"]) := by
    cases more with
    | cons token more => rfl
    | nil =>
      cases first : rest.head? with
      | none => simp [first]
      | some token =>
        simpa [first] using isQuiet.isOneOf_eq (by decide) token (List.mem_of_head? first)
  cases tokens with
  | cons token more => rw [List.cons_append, startsOperator, startsOperator, negated]
  | nil =>
    cases rest with
    | nil => rfl
    | cons token rest =>
      have operators : token.isOneOf ["is", "in", "between", "like", "ilike"] = false :=
        isQuiet.isOneOf_eq (by decide) token (by simp)
      have negation : token.isOneOf ["not"] = false :=
        isQuiet.isOneOf_eq (by decide) token (by simp)
      have compares (text : String) : token ≠ .operator text :=
        isQuiet.ne_of_nameless rfl token (by simp)
      rw [isOneOf, List.any_cons, List.any_nil, Bool.or_false] at negation
      simp [startsOperator, compares, operators, negation]

/-- Brackets in front of a condition end where quiet words begin. -/
theorem dropWhile_append (isQuiet : IsQuiet rest) (tokens : List SqlToken) :
    (tokens ++ rest).dropWhile (· == .punctuation '(') =
      tokens.dropWhile (· == .punctuation '(') ++ rest := by
  -- A bracket is no quiet word, so none is dropped from the rest.
  have unbracketed : rest.dropWhile (· == .punctuation '(') = rest := by
    cases rest with
    | nil => rfl
    | cons word rest =>
      refine List.dropWhile_cons_of_neg ?_
      simpa using isQuiet.ne_of_nameless rfl word (by simp)
  rw [List.dropWhile_append]
  split
  · rename_i empty
    rw [unbracketed, List.isEmpty_iff.mp empty, List.nil_append]
  · rfl

/-- Conditions hold no more columns with quiet words behind them. -/
theorem conditionColumns_append (isQuiet : IsQuiet rest) {tokens : List SqlToken}
    (ends : tokens.getLast? ≠ some (.punctuation '.')) :
    conditionColumns (tokens ++ rest) = conditionColumns tokens := by
  have noDot : rest.head? ≠ some (.punctuation '.') := isQuiet.head?_ne rfl
  induction tokens with
  | nil =>
    have lacks : ∀ token ∈ rest, token.isOneOf connectors = false :=
      isQuiet.isOneOf_eq (by decide)
    have passed := conditionColumns_passed lacks []
    rwa [List.append_nil] at passed
  | cons token tokens ih =>
    have later := ih (getLast?_ne_of_suffix (List.suffix_cons _ _) ends)
    rw [List.cons_append, conditionColumns, conditionColumns, later, isQuiet.dropWhile_append]
    congr 1
    split
    · cases inside : tokens.dropWhile (· == .punctuation '(') with
      | nil =>
        -- The first word behind could be a column, but no operator is behind that one.
        cases rest with
        | nil => rfl
        | cons word rest =>
          have noDot : rest.head? ≠ some (.punctuation '.') := isQuiet.tail.head?_ne rfl
          have noOperator : startsOperator rest = false := isQuiet.tail.startsOperator_append []
          rw [List.nil_append, readColumn?_single noDot]
          cases word.ident? <;> simp [noOperator, readColumn?]
      | cons first more =>
        -- The column is read from the condition alone, and so is the operator behind it.
        have within : first :: more <:+ token :: tokens :=
          (inside ▸ List.dropWhile_suffix _).trans (List.suffix_cons _ _)
        rw [readColumn?_append (by simp) (getLast?_ne_of_suffix within ends) noDot]
        cases readColumn? (first :: more) with
        | none => rfl
        | some read => simp [isQuiet.startsOperator_append]
    · rfl

/-- No equality is among quiet words, in the condition of a join or behind it. -/
theorem equalityColumns_eq_nil (isQuiet : IsQuiet rest) (before : List SqlToken) (left : Nat) :
    equalityColumns before left rest = [] := by
  induction rest generalizing before left with
  | nil => rfl
  | cons token rest ih =>
    -- A quiet word begins no condition of a join, and is no equality in one.
    have noOn : token.isOneOf ["on"] = false := isQuiet.isOneOf_eq (by decide) token (by simp)
    have noEquality : token ≠ .operator "=" := isQuiet.ne_of_nameless rfl token (by simp)
    simp only [isOneOf, List.any_cons, List.any_nil, Bool.or_false] at noOn
    cases left with
    | zero => simpa [equalityColumns, noOn] using ih isQuiet.tail _ 0
    | succ left => simpa [equalityColumns, noEquality] using ih isQuiet.tail _ left

/-- Joins compare no more columns with quiet words behind them. -/
theorem equalityColumns_append (isQuiet : IsQuiet rest) (follows : Follows clauseEnds rest)
    {tokens : List SqlToken} (closes : Closes tokens)
    (noDot : tokens.getLast? ≠ some (.punctuation '.'))
    (noEquality : tokens.getLast? ≠ some (.operator "=")) (before : List SqlToken) (left : Nat) :
    equalityColumns before left (tokens ++ rest) = equalityColumns before left tokens := by
  -- Each condition is as long as it was, so as much of it is left at each token.
  induction tokens generalizing before left with
  | nil => exact isQuiet.equalityColumns_eq_nil before left
  | cons token tokens ih =>
    have later := ih closes.tail (getLast?_ne_of_suffix (List.suffix_cons _ _) noDot)
      (getLast?_ne_of_suffix (List.suffix_cons _ _) noEquality)
    cases left with
    | zero =>
      simp only [List.cons_append, equalityColumns, clauseLength_append closes.tail follows, later]
    | succ left =>
      simp only [List.cons_append, equalityColumns, later]
      congr 1
      split
      · rename_i equality
        have filled : tokens ≠ [] := by
          rintro rfl
          exact noEquality (by rw [equality]; rfl)
        rw [readColumn?_append filled (getLast?_ne_of_suffix (List.suffix_cons _ _) noDot)
          (isQuiet.head?_ne rfl), Option.map_map]
        rfl
      · rfl

/-- No order is among quiet words. -/
theorem orderColumns_eq_nil (isQuiet : IsQuiet rest) (left : Nat) : orderColumns left rest = [] := by
  induction rest generalizing left with
  | nil => rfl
  | cons token rest ih =>
    -- A quiet word begins no order, and is passed over in one.
    have noOrder : token.isOneOf ["order"] = false := isQuiet.isOneOf_eq (by decide) token (by simp)
    simp only [isOneOf, List.any_cons, List.any_nil, Bool.or_false] at noOrder
    cases left with
    | zero => simpa [orderColumns, noOrder] using ih isQuiet.tail 0
    | succ left => simpa [orderColumns] using ih isQuiet.tail left

/-- Results are ordered by no more columns with quiet words behind the order. -/
theorem orderColumns_append (isQuiet : IsQuiet rest) (follows : Follows clauseEnds rest)
    {tokens : List SqlToken} (closes : Closes tokens) (left : Nat) :
    orderColumns left (tokens ++ rest) = orderColumns left tokens := by
  induction tokens generalizing left with
  | nil => exact isQuiet.orderColumns_eq_nil left
  | cons token tokens ih =>
    have later := ih closes.tail
    cases left with
    | succ left => exact later left
    | zero =>
      rw [List.cons_append, orderColumns, orderColumns]
      dsimp only
      rw [later, later]
      cases tokens with
      | nil =>
        -- The first word behind is no second word of an order, since it ends a clause.
        have noBy : rest.head?.any (·.isKeyword "by") = false := by
          cases first : rest.head? with
          | none => rfl
          | some word =>
            have other : word.isOneOf ["by"] = false := follows.isOneOf_eq (by decide) word first
            simpa [isOneOf] using other
        simp [noBy]
      | cons next clause =>
        have length := clauseLength_append closes.tail.tail follows
        have short := clauseLength_le 0 clause
        simp only [List.cons_append, List.head?_cons, List.drop_succ_cons, List.drop_zero, length,
          List.take_append_of_le_length short]

end IsQuiet

/-- A statement that does not break off in the middle of a name, an equality or brackets. -/
structure IsComplete (tokens : List SqlToken) : Prop where
  balanced : Balanced tokens
  noDot : tokens.getLast? ≠ some (.punctuation '.')
  noEquality : tokens.getLast? ≠ some (.operator "=")

/-- Quiet words behind a statement write no columns. -/
theorem writtenColumns_append {query longer : String} {rest : List SqlToken}
    (isComplete : IsComplete (SqlToken.ofString query)) (isQuiet : IsQuiet rest)
    (follows : Follows clauseEnds rest)
    (tokens : SqlToken.ofString longer = SqlToken.ofString query ++ rest) :
    writtenColumns longer = writtenColumns query := by
  -- The words add to none of the three sources, as the query is complete by itself.
  have closes := isComplete.balanced.closes
  simp only [writtenColumns, tokens, joinColumns,
    isQuiet.conditionColumns_append isComplete.noDot,
    isQuiet.equalityColumns_append follows closes isComplete.noDot isComplete.noEquality,
    isQuiet.orderColumns_append follows closes]

/-! The only table of a statement, and a second one. -/

/-- With one table in scope, it is in scope by its own name. -/
theorem lookup_only {query table : String} (single : distinctTables (tablesOf query) = [table]) :
    (tablesOf query).lookup (lower table) = some table := by
  obtain ⟨key, found⟩ := mem_distinctTables_iff.mp (single ▸ List.mem_singleton_self table)
  obtain ⟨before, after, listed, -⟩ := List.lookup_eq_some_iff.mp found
  -- Its own name could have come to mean another table since, but there is no other.
  have named : IsNamed (tablesOf query) := isNamed_bind false [] _ (by simp [IsNamed])
  obtain ⟨other, own⟩ := Option.isSome_iff_exists.mp (named (key, table) (by simp [listed]))
  have only := mem_distinctTables own
  rw [single, List.mem_singleton] at only
  exact only ▸ own

/-- With a second table in scope, no column without a qualifier is left. -/
theorem columns_ambiguous {query key other table second : String}
    (found : (tablesOf query).lookup key = some table)
    (foundToo : (tablesOf query).lookup other = some second) (apart : table ≠ second)
    (unqualified : ∀ written ∈ writtenColumns query, written.qualifier = none)
    (entityTable : String) : columns entityTable query = [] := by
  -- No column that is written has a table, so all of them are left out.
  rw [columns_eq_written]
  refine List.filterMap_eq_nil_iff.mpr fun written isWritten => ?_
  simp [tableOf?_among entityTable written (mem_distinctTables found)
    (mem_distinctTables foundToo) apart, unqualified written isWritten]

/-- Names that come into scope for one table mean that one, and all others what they meant. -/
theorem lookup_map_append (names : List String) (table : String) (tables : Tables) (key : String) :
    ((names.map fun name => (name, table)) ++ tables).lookup key =
      if key ∈ names then some table else tables.lookup key := by
  induction names with
  | nil => rfl
  | cons name names ih =>
    rw [List.map_cons, List.cons_append, List.lookup_cons, ih]
    -- The first name is the key, or the others decide.
    by_cases same : key = name
    · simp [same]
    · simp [same, beq_eq_false_iff_ne.mpr same]

/-! Row locks. -/

/-- What a row lock does about rows that others have locked. -/
inductive Waiting where
  | waits
  | fails
  | skips
deriving Repr, DecidableEq

namespace Waiting

/-- The words for it. -/
def words : Waiting → List String
  | waits => []
  | fails => ["nowait"]
  | skips => ["skip", "locked"]

/-- The way to write it. -/
def written : Waiting → Language SqlToken
  | waits => 1
  | fails => keyword "nowait"
  | skips => keyword "skip" * keyword "locked"

end Waiting

/-- The lock of the rows that a statement reads. -/
def rowLock (waiting : Waiting) : Language SqlToken :=
  keyword "for" * keyword "update" * waiting.written

/-- A row lock stands behind a statement. -/
theorem follows_rowLock {waiting : Waiting} {tokens : List SqlToken}
    (isLock : tokens ∈ rowLock waiting) : Follows ["for"] tokens := by
  -- A lock begins with its keyword.
  obtain ⟨_, ⟨_, start, _, -, rfl⟩, _, -, rfl⟩ := isLock
  simp only [List.append_assoc]
  exact follows_keyword start (by decide) _

/-- The words of a lock are quiet. -/
theorem isQuiet_rowLock {waiting : Waiting} {tokens : List SqlToken}
    (isLock : tokens ∈ rowLock waiting) : IsQuiet tokens := by
  have quiet : ∀ own ∈ ["for", "update", "nowait", "skip", "locked"],
      Each (fun token => token.ident?.isSome = true ∧ token.isOneOf columnWords = false)
        (keyword own) := by
    -- None of the five words begins a condition, a join or an order.
    have unlisted : ∀ own ∈ ["for", "update", "nowait", "skip", "locked"],
        IsPlainWord own ∧ columnWords.any (eqIgnoringAsciiCase own ·) = false := by decide
    intro own isOwn
    obtain ⟨plain, apart⟩ := unlisted own isOwn
    refine .keyword fun token found => ⟨?_, (isOneOf_keyword found).trans apart⟩
    obtain ⟨text, rfl, -⟩ := eq_word_of_isKeyword plain found
    rfl
  -- The clause is a product of such words, however long it waits.
  have each : Each (fun token => token.ident?.isSome = true ∧ token.isOneOf columnWords = false)
      (rowLock waiting) := by
    refine ((quiet "for" (by simp)).mul (quiet "update" (by simp))).mul ?_
    cases waiting with
    | waits => exact .one
    | fails => exact quiet "nowait" (by simp)
    | skips => exact (quiet "skip" (by simp)).mul (quiet "locked" (by simp))
  exact ⟨fun token member => (each tokens isLock token member).1,
    fun token member => (each tokens isLock token member).2⟩

/-- The first word behind that of a lock comes into scope as a table, another one as its alias. -/
theorem bind_rowLock {waiting : Waiting} {tokens : List SqlToken} (tables : Tables)
    (isLock : tokens ∈ rowLock waiting) :
    ∃ text, (∀ word ∈ waiting.words.head?, lower text = word) ∧
      bind false tables tokens =
        (waiting.words.reverse.map fun word => (word, text)) ++ tables := by
  obtain ⟨_, ⟨_, ⟨start, isFor, rfl⟩, _, ⟨update, isUpdate, rfl⟩, rfl⟩, words, areWords, rfl⟩ :=
    isLock
  have passed : start.isOneOf introductions = false := by
    rw [isOneOf_keyword isFor]
    decide
  have introduces : update.isOneOf introductions = true := by
    rw [isOneOf_keyword isUpdate]
    decide
  simp only [List.cons_append, List.nil_append]
  rw [bind_cons, Jpql.introduces, ← introductions, passed, bind_cons, Jpql.introduces,
    ← introductions, introduces]
  -- A word that says how not to wait is a table, and a second one is its alias.
  cases waiting with
  | waits =>
    obtain rfl : words = [] := areWords
    exact ⟨"", by simp [Waiting.words], by rw [bind_nameless tables (by simp), bind_nil]; rfl⟩
  | fails =>
    obtain ⟨token, found, rfl⟩ := areWords
    obtain ⟨text, rfl, same⟩ := eq_word_of_isKeyword (by decide) found
    have free : lower text ∉ reserved := same ▸ (by decide)
    have noAlias : Jpql.readAlias reserved [] = (none, []) := by decide
    have named : ident? (.word text) = some text := rfl
    refine ⟨text, by simp [Waiting.words, same], ?_⟩
    rw [bind_table tables named free (by simp) noAlias (by simp), bind_nil, same]
    rfl
  | skips =>
    obtain ⟨_, ⟨first, isSkip, rfl⟩, _, ⟨second, isLocked, rfl⟩, rfl⟩ := areWords
    obtain ⟨text, rfl, same⟩ := eq_word_of_isKeyword (by decide) isSkip
    obtain ⟨other, rfl, sameToo⟩ := eq_word_of_isKeyword (by decide) isLocked
    have free : lower text ∉ reserved := same ▸ (by decide)
    have freeToo : lower other ∉ reserved := sameToo ▸ (by decide)
    have notAs : isKeyword "as" (.word other) = false := by
      rw [isKeyword_other isLocked]
      decide
    have aliased : Jpql.readAlias reserved [.word other] = (some (lower other), []) :=
      Jpql.readAlias_named (.inr rfl) rfl notAs freeToo
    have named : ident? (.word text) = some text := rfl
    refine ⟨text, by simp [Waiting.words, same], ?_⟩
    simp only [List.singleton_append]
    rw [bind_table tables named free (by simp) aliased (by simp), bind_nil, same, sameToo]
    rfl

/-- A lock goes on with no table in front of it. -/
theorem breaks_rowLock {waiting : Waiting} {tokens : List SqlToken}
    (isLock : tokens ∈ rowLock waiting) : Breaks tokens := by
  -- Behind its first word a lock has quiet words alone, and none of them is a dot.
  refine (follows_rowLock isLock).breaks (by decide) (by decide) (by decide) ?_
  cases tokens with
  | nil => simp
  | cons token rest => exact (isQuiet_rowLock isLock).tail.head?_ne rfl

/-- A lock hides the columns of a statement on one table unless it waits. -/
theorem columns_locked {query locked table : String} {waiting : Waiting} {lock : List SqlToken}
    (single : distinctTables (tablesOf query) = [table])
    (unqualified : ∀ written ∈ writtenColumns query, written.qualifier = none)
    (isComplete : IsComplete (SqlToken.ofString query)) (isLock : lock ∈ rowLock waiting)
    (tokens : SqlToken.ofString locked = SqlToken.ofString query ++ lock)
    (apart : lower table ∉ waiting.words) (entityTable : String) :
    columns entityTable locked =
      if waiting = .waits then columns entityTable query else [] := by
  -- The lock writes no columns, so all that changes is what is in scope.
  obtain ⟨text, isWord, bound⟩ := bind_rowLock (tablesOf query) isLock
  have scope : tablesOf locked =
      (waiting.words.reverse.map fun word => (word, text)) ++ tablesOf query := by
    rw [tablesOf, tokens, bind_append (breaks_rowLock isLock) false [] isComplete.noDot]
    exact bound
  have same : writtenColumns locked = writtenColumns query := by
    refine writtenColumns_append isComplete (isQuiet_rowLock isLock) ?_ tokens
    exact fun token first => isOneOf_of_subset (by decide) (follows_rowLock isLock token first)
  by_cases waits : waiting = .waits
  · subst waits
    rw [if_pos rfl, columns_eq_written, columns_eq_written, same, scope]
    rfl
  -- The first word behind that of the lock is in scope beside the table of the statement.
  obtain ⟨word, first⟩ : ∃ word, waiting.words.head? = some word := by
    cases waiting with
    | waits => exact absurd rfl waits
    | fails => exact ⟨"nowait", rfl⟩
    | skips => exact ⟨"skip", rfl⟩
  have listed : word ∈ waiting.words := List.mem_of_head? first
  have isText : (tablesOf locked).lookup word = some text := by
    rw [scope, lookup_map_append, if_pos (List.mem_reverse.mpr listed)]
  have isTable : (tablesOf locked).lookup (lower table) = some table := by
    rw [scope, lookup_map_append, if_neg fun isOne => apart (List.mem_reverse.mp isOne),
      lookup_only single]
  rw [if_neg waits]
  refine columns_ambiguous isTable isText ?_ (same ▸ unqualified) entityTable
  rintro rfl
  exact apart (isWord word first ▸ listed)

/-! Calls of functions. -/

/-- Tokens among which no word is one for tables. -/
def noIntroduction : Language SqlToken :=
  {tokens : List SqlToken | ∀ token ∈ tokens, token.isOneOf introductions = false}

/--
One more condition, on what a function makes of a column with a word for tables in front of it.

Behind the bracket may be what it takes of the column, such as a part of a date.
-/
def keywordCall (function argument : String) : Language SqlToken :=
  (keyword "and" + keyword "or") * name function * lone (.punctuation '(') * noIntroduction *
    keyword "from" * name argument * lone (.punctuation ')') * test

/-- The argument of such a call comes into scope as a table. -/
theorem bind_keywordCall {function argument : String} {tokens : List SqlToken}
    (isCall : tokens ∈ keywordCall function argument) (tables : Tables) (rest : List SqlToken) :
    bind false tables (tokens ++ rest) =
      bind false ((lower argument, argument) :: tables) rest := by
  obtain ⟨_, ⟨_, ⟨_, ⟨front, isFront, _, ⟨start, isFrom, rfl⟩, rfl⟩, _, isArgument, rfl⟩, _,
    rfl, rfl⟩, tested, isTest, rfl⟩ := isCall
  obtain ⟨free, token, named, rfl⟩ := mem_name isArgument
  -- Only the word in front of the argument introduces a table, and the bracket behind ends it.
  have inFront : ∀ token ∈ front, token.isOneOf introductions = false := by
    have connects : Lacks introductions (keyword "and" + keyword "or") :=
      (lacks_keyword (by decide) (by decide) (by decide)).add
        (lacks_keyword (by decide) (by decide) (by decide))
    have words : Lacks introductions noIntroduction := fun _ lacks => lacks
    exact (((connects.mul (lacks_name (by decide) _)).mul (lacks_lone rfl)).mul words) front isFront
  have introduces : Jpql.introduces start = true := by
    rw [Jpql.introduces, isOneOf_keyword isFrom]
    decide
  have unreserved : lower argument ∉ reserved := fun listed => free (by simp [keywords, listed])
  have noAlias (after : List SqlToken) :
      Jpql.readAlias reserved (.punctuation ')' :: after) = (none, .punctuation ')' :: after) := rfl
  have behind : ∀ token ∈ .punctuation ')' :: tested, token.isOneOf introductions = false :=
    List.forall_mem_cons.mpr
      ⟨isOneOf_of_nameless rfl, lacks_test (by decide) (by decide) tested isTest⟩
  have passed := bind_passed inFront
  have passedBehind := bind_passed behind ((lower argument, argument) :: tables) rest
  simp only [List.append_assoc, List.cons_append, List.nil_append] at passed passedBehind ⊢
  rw [passed, bind_cons, introduces, bind_table tables named unreserved (by simp) (noAlias _)
    (by simp)]
  exact passedBehind

/-- A further condition goes on with no table in front of it. -/
theorem breaks_keywordCall {function argument : String} {tokens : List SqlToken}
    (isCall : tokens ∈ keywordCall function argument) (rest : List SqlToken) :
    Breaks (tokens ++ rest) := by
  obtain ⟨_, ⟨_, ⟨_, ⟨_, ⟨_, ⟨_, ⟨_, isConnector, _, isFunction, rfl⟩, _, -, rfl⟩, _, -, rfl⟩, _, -,
    rfl⟩, _, -, rfl⟩, _, -, rfl⟩, _, -, rfl⟩ := isCall
  obtain ⟨word, connects, rfl⟩ := mem_connector isConnector
  obtain ⟨-, token, named, rfl⟩ := mem_name isFunction
  simp only [List.append_assoc, List.cons_append, List.nil_append]
  have follows : ∀ more, Follows connectors (word :: more) := by
    intro more first isFirst
    obtain rfl := Option.some.inj isFirst
    exact connects
  -- The word behind a connector is the name of the function, no dot.
  refine (follows _).breaks (by decide) (by decide) (by decide) ?_
  rintro same
  obtain rfl := Option.some.inj same
  contradiction

/-- A call with a word for tables in it hides the columns of a statement on one table. -/
theorem columns_called {query called table function argument : String}
    {before conjunct after : List SqlToken} (single : distinctTables (tablesOf query) = [table])
    (noDot : before.getLast? ≠ some (.punctuation '.')) (breaks : Breaks after)
    (tokens : SqlToken.ofString query = before ++ after)
    (isCall : conjunct ∈ keywordCall function argument)
    (calledTokens : SqlToken.ofString called = before ++ (conjunct ++ after))
    (unbound : (tablesOf query).lookup (lower argument) = none)
    (unqualified : ∀ written ∈ writtenColumns called, written.qualifier = none)
    (entityTable : String) : columns entityTable called = [] := by
  have isTable := lookup_only single
  -- The tables behind the conjunct are in scope in front of it and of those before it.
  have scope (tables : Tables) : bind false tables after = bind false [] after ++ tables :=
    bind_scope false [] after tables
  have known : tablesOf query = bind false [] after ++ bind false [] before := by
    rw [tablesOf, tokens, bind_append breaks false [] noDot, scope]
  have knownToo : tablesOf called =
      bind false [] after ++ (lower argument, argument) :: bind false [] before := by
    rw [tablesOf, calledTokens, bind_append (breaks_keywordCall isCall after) false [] noDot,
      bind_keywordCall isCall, scope]
  rw [known, List.lookup_append, Option.or_eq_none_iff] at unbound
  have apart : lower table ≠ lower argument := by
    intro same
    rw [known, same, List.lookup_append, unbound.1, unbound.2] at isTable
    contradiction
  have isArgument : (tablesOf called).lookup (lower argument) = some argument := by
    rw [knownToo, List.lookup_append, unbound.1]
    simp
  have isTableToo : (tablesOf called).lookup (lower table) = some table := by
    rw [known, List.lookup_append] at isTable
    rw [knownToo, List.lookup_append, List.lookup_cons, beq_eq_false_iff_ne.mpr apart]
    exact isTable
  refine columns_ambiguous isTableToo isArgument ?_ unqualified entityTable
  rintro rfl
  exact apart rfl

/--
A word for tables that names none hides the columns of a statement on one table.

That table has all columns that the statement writes, and a lock that waits changes nothing.
What follows the word, be it how not to wait or the argument of a call, is taken for a second table:
then columns without a qualifier belong to neither.
-/
theorem columns_strayWord {query table : String}
    (single : distinctTables (tablesOf query) = [table])
    (unqualified : ∀ written ∈ writtenColumns query, written.qualifier = none)
    (entityTable : String) :
    columns entityTable query = (writtenColumns query).map (⟨table, ·.column⟩) ∧
    (∀ (waiting : Waiting) (lock : List SqlToken) (locked : String),
      IsComplete (SqlToken.ofString query) → lock ∈ rowLock waiting →
      SqlToken.ofString locked = SqlToken.ofString query ++ lock → lower table ∉ waiting.words →
        columns entityTable locked =
          if waiting = .waits then columns entityTable query else []) ∧
    (∀ (function argument called : String) (before conjunct after : List SqlToken),
      SqlToken.ofString query = before ++ after → before.getLast? ≠ some (.punctuation '.') →
      Breaks after → conjunct ∈ keywordCall function argument →
      (tablesOf query).lookup (lower argument) = none →
      SqlToken.ofString called = before ++ (conjunct ++ after) →
      (∀ written ∈ writtenColumns called, written.qualifier = none) →
        columns entityTable called = []) := by
  refine ⟨?_, ?_, ?_⟩
  -- A single table has all columns that come without a qualifier.
  · rw [columns_eq_written]
    refine filterMap_tableOf? fun written isWritten => ?_
    simp [tableOf?, single, unqualified written isWritten]
  · intro waiting lock locked isComplete isLock tokens apart
    exact columns_locked single unqualified isComplete isLock tokens apart entityTable
  · intro function argument called before conjunct after tokens noDot breaks isCall unbound
      calledTokens unqualified
    exact columns_called single noDot breaks tokens isCall calledTokens unbound unqualified
      entityTable

/-- A statement on one table with a condition. -/
def oneTableQuery : String :=
  "SELECT * FROM users WHERE email = ?"

/-- The tokens of that statement. -/
def oneTableTokens : List SqlToken :=
  [.word "SELECT", .operator "*"] ++ .word "FROM" :: .word "users" ::
    ([.word "WHERE", .word "email", .operator "=", .parameter] ++ [])

/-- The statement has these tokens. -/
theorem ofString_oneTableQuery : SqlToken.ofString oneTableQuery = oneTableTokens := by
  decide +kernel

/-- Its table is the only one in scope. -/
theorem tablesOf_oneTableQuery : tablesOf oneTableQuery = [("users", "users")] := by
  -- One word of the query introduces a table, and no alias follows it.
  have introduces : Jpql.introduces (.word "FROM") = true := by decide
  have unaliased : Jpql.readAlias reserved
      ([.word "WHERE", .word "email", .operator "=", .parameter] ++ []) =
        (none, [.word "WHERE", .word "email", .operator "=", .parameter] ++ []) := by
    decide +kernel
  rw [tablesOf, ofString_oneTableQuery, oneTableTokens, bind_passed (by decide +kernel), bind_cons,
    introduces, bind_table [] rfl (by decide +kernel) (by decide +kernel) unaliased
      (by decide +kernel), bind_passed (by decide +kernel), bind_nil]
  decide +kernel

/-- One column is found, and neither with a lock nor with a further condition. -/
theorem columns_strayWord_users :
    columns "users" oneTableQuery = [⟨"users", "email"⟩] ∧
      columns "users" (oneTableQuery ++ " FOR UPDATE NOWAIT") = [] ∧
      columns "users" (oneTableQuery ++ " AND EXTRACT(YEAR FROM created) = 2024") = [] := by
  have single : distinctTables (tablesOf oneTableQuery) = ["users"] := by
    rw [tablesOf_oneTableQuery]
    simp [distinctTables, List.lookup_cons, List.eraseDups_cons]
  have written : writtenColumns oneTableQuery = [⟨none, "email"⟩] := by
    simp only [writtenColumns, ofString_oneTableQuery]
    decide +kernel
  obtain ⟨found, locked, called⟩ :=
    columns_strayWord single (by rw [written]; decide) "users"
  refine ⟨by rw [found, written]; rfl, ?_, ?_⟩
  · -- The lock stands behind the whole statement.
    have isComplete : IsComplete (SqlToken.ofString oneTableQuery) := by
      rw [ofString_oneTableQuery]
      exact ⟨.level rfl (.level rfl (.level rfl (.level rfl (.level rfl (.level rfl (.level rfl
        (.level rfl .nil))))))), by decide, by decide⟩
    have isLock : [.word "FOR", .word "UPDATE", .word "NOWAIT"] ∈ rowLock .fails :=
      ⟨_, ⟨_, ⟨_, by decide, rfl⟩, _, ⟨_, by decide, rfl⟩, rfl⟩, _, ⟨_, by decide, rfl⟩, rfl⟩
    have tokens : SqlToken.ofString (oneTableQuery ++ " FOR UPDATE NOWAIT") =
        SqlToken.ofString oneTableQuery ++ [.word "FOR", .word "UPDATE", .word "NOWAIT"] := by
      decide +kernel
    exact locked .fails _ _ isComplete isLock tokens (by decide +kernel)
  · -- The condition with the call is the last one.
    have isTest : [.operator "=", .number] ∈ test :=
      .inl (.inl (.inl (.inl ⟨_, ⟨"=", by decide, rfl⟩, _,
        .inl (.inl (.inl (.inl (.inl ⟨_, .inr rfl, _, rfl, rfl⟩)))), rfl⟩)))
    have noWord : ∀ token ∈ [SqlToken.word "YEAR"], token.isOneOf introductions = false := by decide
    have isCall : [.word "AND", .word "EXTRACT", .punctuation '(', .word "YEAR", .word "FROM",
        .word "created", .punctuation ')', .operator "=", .number] ∈
          keywordCall "EXTRACT" "created" :=
      ⟨_, ⟨_, ⟨_, ⟨_, ⟨_, ⟨_, ⟨_, .inl ⟨_, by decide, rfl⟩, _, ⟨by decide +kernel, .inl rfl⟩, rfl⟩,
        _, rfl, rfl⟩, _, noWord, rfl⟩, _, ⟨_, by decide, rfl⟩, rfl⟩, _,
        ⟨by decide +kernel, .inl rfl⟩, rfl⟩, _, rfl, rfl⟩, _, isTest, rfl⟩
    have breaks : Breaks [] := ⟨⟨rfl, by simp⟩, by simp, by simp, by simp⟩
    have unbound : (tablesOf oneTableQuery).lookup (lower "created") = none := by
      rw [tablesOf_oneTableQuery]
      decide +kernel
    have tokens : SqlToken.ofString oneTableQuery = oneTableTokens ++ [] := by
      rw [ofString_oneTableQuery, List.append_nil]
    have calledTokens :
        SqlToken.ofString (oneTableQuery ++ " AND EXTRACT(YEAR FROM created) = 2024") =
          oneTableTokens ++ ([.word "AND", .word "EXTRACT", .punctuation '(', .word "YEAR",
            .word "FROM", .word "created", .punctuation ')', .operator "=", .number] ++ []) := by
      decide +kernel
    have unqualified : ∀ written ∈
        writtenColumns (oneTableQuery ++ " AND EXTRACT(YEAR FROM created) = 2024"),
          written.qualifier = none := by
      simp only [writtenColumns, calledTokens]
      decide +kernel
    have noDot : oneTableTokens.getLast? ≠ some (.punctuation '.') := by decide
    exact called _ _ _ _ _ _ tokens noDot breaks isCall unbound calledTokens unqualified

end Native

end IndexAudit
