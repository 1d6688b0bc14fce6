import IndexAudit.Proofs.Query.Clause
import IndexAudit.Proofs.Sql.Nesting

/-!
The columns of joins and of the order.

Both are read from clauses whose extent is measured first: up to the next keyword that ends one.
-/

namespace IndexAudit

namespace Native

open SqlToken
open scoped Computability

/-- A token that the clause it stands in goes on behind. -/
def Continues (token : SqlToken) : Prop :=
  token.nest = .level ∧ token ≠ .punctuation ';' ∧ token.isOneOf clauseEnds = false

/-- A clause without brackets extends up to a keyword that ends it. -/
theorem clauseLength_continued {clause rest : List SqlToken}
    (continued : ∀ token ∈ clause, Continues token) (follows : Follows clauseEnds rest) :
    clauseLength 0 (clause ++ rest) = clause.length := by
  induction clause with
  | nil =>
    -- The clause ends with the text, or at a keyword that ends clauses.
    cases rest with
    | nil => rfl
    | cons token rest =>
      have ends : token.isOneOf clauseEnds = true := follows token rfl
      have level : token.nest = .level := by
        cases token with
        | word text => rfl
        | _ => simp [isOneOf, isKeyword] at ends
      simp [clauseLength, level, ends]
  | cons token clause ih =>
    obtain ⟨⟨level, noEnd, goesOn⟩, later⟩ := List.forall_mem_cons.mp continued
    simp [clauseLength, level, noEnd, goesOn, ih later]

/-- A clause has no more tokens than there are. -/
theorem clauseLength_le (depth : Nat) (tokens : List SqlToken) :
    clauseLength depth tokens ≤ tokens.length := by
  -- Each step of the count takes up a token.
  fun_induction clauseLength depth tokens <;> simp only [List.length_cons, List.length_nil] <;> omega

/-- A clause that no bracket is left open in ends in front of a keyword that ends clauses. -/
theorem clauseLength_append {tokens rest : List SqlToken} (closes : Closes tokens)
    (follows : Follows clauseEnds rest) : clauseLength 0 (tokens ++ rest) = clauseLength 0 tokens := by
  obtain ⟨outer, closed⟩ := closes
  -- The brackets that are open inside the clause are told from those around it.
  suffices within : ∀ outer depth,
      tokens.foldl (fun depth token => token.nest.after depth) (outer + depth) = 0 →
        clauseLength depth (tokens ++ rest) = clauseLength depth tokens from within outer 0 closed
  clear closed outer
  induction tokens with
  | nil =>
    intro outer depth closed
    obtain rfl : depth = 0 := by
      simp only [List.foldl_nil] at closed
      omega
    exact clauseLength_continued (List.forall_mem_nil Continues) follows
  | cons token tokens ih =>
    intro outer depth closed
    rw [List.foldl_cons] at closed
    cases nested : token.nest with
    | opens =>
      rw [nested] at closed
      have later := ih outer (depth + 1) closed
      simp [clauseLength, nested, later]
    | closes =>
      cases depth with
      | zero => simp [clauseLength, nested]
      | succ inner =>
        rw [nested] at closed
        have later := ih outer inner closed
        simp [clauseLength, nested, later]
    | level =>
      rw [nested] at closed
      have later := ih outer depth closed
      cases depth <;> simp [clauseLength, nested, later]

/-- The words of names and columns are plain. -/
theorem isPlain_name (text : String) : Each IsPlain (name text) := by
  rintro tokens written token member
  -- A name is one identifier.
  obtain ⟨-, only, named, rfl⟩ := mem_name written
  obtain rfl := List.mem_singleton.mp member
  exact isPlain_of_ident named

/-- The tokens of a column are plain. -/
theorem isPlain_column (written : WrittenColumn) : Each IsPlain (column written) := by
  -- A column is a name, or two with a dot in between.
  unfold column
  split
  · exact isPlain_name _
  · exact ((isPlain_name _).mul (.lone isPlain_dot)).mul (isPlain_name _)

/-- A clause goes on behind plain tokens that are no keywords which end it. -/
theorem continues_of_isPlain {phrase : Language SqlToken} (plain : Each IsPlain phrase)
    (lacks : Lacks clauseEnds phrase) : Each Continues phrase :=
  -- A plain token opens nothing and ends no statement, and as no keyword it ends no clause.
  (plain.and lacks).mono fun _ both => ⟨both.1.level, both.1.noEnd, both.2⟩

/-- A clause goes on behind a column. -/
theorem continues_column (written : WrittenColumn) : Each Continues (column written) :=
  continues_of_isPlain (isPlain_column written) (lacks_column (by decide) written)

section Join

/-- Outside of conditions of joins nothing is read. -/
theorem equalityColumns_passed {passed : List SqlToken}
    (lacks : ∀ token ∈ passed, token.isOneOf ["on"] = false) (before rest : List SqlToken) :
    equalityColumns before 0 (passed ++ rest) =
      equalityColumns (passed.reverse ++ before) 0 rest := by
  induction passed generalizing before with
  | nil => rfl
  | cons token passed ih =>
    -- The first token begins no condition, so it is passed, and kept in front of the rest.
    obtain ⟨here, later⟩ := List.forall_mem_cons.mp lacks
    simp only [isOneOf, List.any_cons, List.any_nil, Bool.or_false] at here
    simp [equalityColumns, here, ih later]

/-- In the condition of a join nothing is read but at its equalities. -/
theorem equalityColumns_within {passed : List SqlToken}
    (lacks : ∀ token ∈ passed, token ≠ .operator "=") (left : Nat) (before rest : List SqlToken) :
    equalityColumns before (passed.length + left) (passed ++ rest) =
      equalityColumns (passed.reverse ++ before) left rest := by
  induction passed generalizing before with
  | nil => simp
  | cons token passed ih =>
    -- The first token is no equality, so it is passed, and one token less is left.
    obtain ⟨here, later⟩ := List.forall_mem_cons.mp lacks
    simp [equalityColumns, here, ih later, Nat.add_right_comm]

/-- No column has an equality sign in it. -/
theorem column_ne_equality (written : WrittenColumn) :
    Each (· ≠ .operator "=") (column written) := by
  have named : ∀ text, Each (· ≠ .operator "=") (name text) := by
    rintro text tokens isName token member rfl
    -- A name is an identifier, and no operator is one.
    obtain ⟨-, only, named, rfl⟩ := mem_name isName
    obtain rfl := List.mem_singleton.mp member
    contradiction
  unfold column
  split
  · exact named _
  · exact ((named _).mul (.lone (by simp))).mul (named _)

/-- The condition of a join is read as its two sides. -/
theorem equalityColumns_condition {on : SqlToken} {left right : WrittenColumn}
    {leftTokens rightTokens rest : List SqlToken} (found : on.isKeyword "on" = true)
    (isLeft : leftTokens ∈ column left) (isRight : rightTokens ∈ column right)
    (follows : Follows clauseEnds rest) (before : List SqlToken) :
    equalityColumns before 0
        (on :: (leftTokens ++ .operator "=" :: (rightTokens ++ rest))) =
      left :: right :: equalityColumns
        ((on :: (leftTokens ++ .operator "=" :: rightTokens)).reverse ++ before) 0 rest := by
  have extent : clauseLength 0 (leftTokens ++ .operator "=" :: (rightTokens ++ rest)) =
      leftTokens.length + (rightTokens.length + 1) := by
    have sign : Continues (.operator "=") := ⟨rfl, by simp, isOneOf_of_nameless rfl⟩
    have all : ∀ token ∈ leftTokens ++ .operator "=" :: rightTokens, Continues token :=
      List.forall_mem_append.mpr ⟨continues_column left leftTokens isLeft,
        List.forall_mem_cons.mpr ⟨sign, continues_column right rightTokens isRight⟩⟩
    have measured := clauseLength_continued all follows
    simpa using measured
  have starts : (on :: before).head? ≠ some (.punctuation '.') := by
    intro same
    obtain rfl := Option.some.inj same
    simp [isKeyword] at found
  have noDot : rest.head? ≠ some (.punctuation '.') := follows.head?_ne rfl
  rw [equalityColumns, if_pos found, extent,
    equalityColumns_within (column_ne_equality left leftTokens isLeft), equalityColumns,
    if_pos rfl, columnBefore?_column isLeft starts, readColumn?_column isRight noDot]
  -- What is left of the condition is its right side.
  have passed := equalityColumns_within (column_ne_equality right rightTokens isRight) 0
    (.operator "=" :: (leftTokens.reverse ++ on :: before)) rest
  simpa using passed

/-- The words that may follow the condition of a join. -/
def joinEnds : List String :=
  ["join", "where", "order", "limit", "for"]

/-- The words that may follow all joins. -/
def tableEnds : List String :=
  ["where", "order", "limit", "for"]

/-- What follows all joins follows each of them. -/
theorem follows_joins {joins : List Join} {tokens rest : List SqlToken}
    (written : tokens ∈ joinClauses joins) (follows : Follows tableEnds rest) :
    Follows joinEnds (tokens ++ rest) := by
  -- Either no join is left, or the next one begins with its word.
  cases joins with
  | nil =>
    obtain rfl : tokens = [] := written
    exact fun token first => isOneOf_of_subset (by decide) (follows token first)
  | cons next joins =>
    obtain ⟨_, ⟨_, ⟨_, ⟨_, ⟨_, ⟨_, isJoin, _, -, rfl⟩, _, -, rfl⟩, _, -, rfl⟩, _, -, rfl⟩, _, -,
      rfl⟩, _, -, rfl⟩ := written
    simp only [List.append_assoc]
    exact follows_keyword isJoin (by decide) _

/-- The joins of a statement are read as the sides of their conditions. -/
theorem equalityColumns_joins {joins : List Join} {tokens rest : List SqlToken}
    (written : tokens ∈ joinClauses joins) (follows : Follows tableEnds rest)
    (before : List SqlToken) :
    equalityColumns before 0 (tokens ++ rest) =
      joins.flatMap (fun join => [join.left, join.right]) ++
        equalityColumns (tokens.reverse ++ before) 0 rest := by
  -- The tokens passed are carried along, since the left side of an equality is read backwards.
  induction joins generalizing tokens before with
  | nil =>
    obtain rfl : tokens = [] := written
    rfl
  | cons next joins ih =>
    obtain ⟨_, ⟨_, ⟨_, ⟨_, ⟨front, isFront, _, ⟨on, found, rfl⟩, rfl⟩, left, isLeft, rfl⟩, _, rfl,
      rfl⟩, right, isRight, rfl⟩, later, isLater, rfl⟩ := written
    have lacks : Lacks ["on"] (keyword "join" * next.use.written) :=
      (lacks_keyword (by decide) (by decide) (by decide)).mul
        (lacks_use (by decide) (by decide) next.use)
    have ends : Follows clauseEnds (later ++ rest) := fun token first =>
      isOneOf_of_subset (by decide) (follows_joins isLater follows token first)
    simp only [List.append_assoc, List.cons_append, List.nil_append]
    rw [equalityColumns_passed (lacks front isFront),
      equalityColumns_condition found isLeft isRight ends, ih isLater]
    simp

end Join

section Order

/-- Tokens that are passed over say nothing about the order. -/
theorem orderColumns_skipped (passed rest : List SqlToken) :
    orderColumns passed.length (passed ++ rest) = orderColumns 0 rest := by
  -- Each token that is passed over lowers the count by one.
  induction passed with
  | nil => rfl
  | cons token passed ih => simpa [orderColumns] using ih

/-- Where no order begins, none is read. -/
theorem orderColumns_passed {passed : List SqlToken}
    (lacks : ∀ token ∈ passed, token.isOneOf ["order"] = false) (rest : List SqlToken) :
    orderColumns 0 (passed ++ rest) = orderColumns 0 rest := by
  induction passed with
  | nil => rfl
  | cons token passed ih =>
    -- The first token begins no order, so it is passed.
    obtain ⟨here, later⟩ := List.forall_mem_cons.mp lacks
    simp only [isOneOf, List.any_cons, List.any_nil, Bool.or_false] at here
    simp [orderColumns, here, ih later]

/-- The words that may stand behind a column in an order. -/
def sortWords : List String :=
  ["asc", "desc", "nulls", "first", "last"]

/-- A sort key without its column. -/
def sortTail : Language SqlToken :=
  optional (keyword "asc" + keyword "desc") *
    optional (keyword "nulls" * (keyword "first" + keyword "last"))

/-- A sort key is a column and what follows it. -/
theorem mem_sortKey {written : WrittenColumn} {tokens : List SqlToken} :
    tokens ∈ sortKey written ↔ tokens ∈ column written * sortTail := by
  -- Both are the same phrases in the same order.
  rw [sortKey, sortTail, mul_assoc]

/-- Behind the column of a sort key only words for it stand. -/
theorem sortTail_words : Each (fun token => token.isOneOf sortWords = true) sortTail := by
  -- Every word of the tail is one of these.
  have word : ∀ own ∈ sortWords,
      Each (fun token => token.isOneOf sortWords = true) (keyword own) := by
    have listed : ∀ own ∈ sortWords, sortWords.any (eqIgnoringAsciiCase own ·) = true := by decide
    exact fun own isOwn => .keyword fun token found =>
      (isOneOf_keyword found).trans (listed own isOwn)
  exact (((word "asc" (by decide)).add (word "desc" (by decide))).optional).mul
    (((word "nulls" (by decide)).mul
      ((word "first" (by decide)).add (word "last" (by decide)))).optional)

/-- A sort key is read as its column. -/
theorem sortColumn?_sortKey {written : WrittenColumn} {tokens : List SqlToken}
    (isKey : tokens ∈ sortKey written) : sortColumn? tokens = some written := by
  obtain ⟨front, isColumn, tail, isTail, rfl⟩ := mem_sortKey.mp isKey
  -- Behind the column come words for it only, so it ends there and nothing else is in the item.
  have words := sortTail_words tail isTail
  have follows : Follows sortWords tail := fun token first => words token (List.mem_of_head? first)
  rw [sortWords] at words
  simpa [sortColumn?, readColumn?_column isColumn (follows.head?_ne rfl)] using words

/-- The tokens of a sort key are plain. -/
theorem isPlain_sortKey (written : WrittenColumn) : Each IsPlain (sortKey written) := by
  -- A sort key is a column and keywords.
  have word : ∀ own, Each IsPlain (keyword own) := fun _ => isPlain_keyword
  exact ((isPlain_column written).mul ((word "asc").add (word "desc")).optional).mul
    ((word "nulls").mul ((word "first").add (word "last"))).optional

/-- A sort key has no keywords but those of its own. -/
theorem lacks_sortKey {words : List String} (known : words ⊆ keywords)
    (apart : ∀ own ∈ sortWords, own ∉ words) (written : WrittenColumn) :
    Lacks words (sortKey written) := by
  -- Besides its column, a sort key has only words of its own.
  have own : ∀ own ∈ sortWords, Lacks words (keyword own) := by
    intro own listed
    exact lacks_keyword known (by revert own; decide) (apart own listed)
  exact ((lacks_column known written).mul
    ((own "asc" (by decide)).add (own "desc" (by decide))).optional).mul
      ((own "nulls" (by decide)).mul
        ((own "first" (by decide)).add (own "last" (by decide)))).optional

/-- The words that may follow an order. -/
def orderEnds : List String :=
  ["limit", "for"]

/-- The order of a statement is read as its columns. -/
theorem orderColumns_order {order : List WrittenColumn} {tokens rest : List SqlToken}
    (written : tokens ∈ orderClause order) (follows : Follows orderEnds rest) :
    orderColumns 0 (tokens ++ rest) = order ++ orderColumns 0 rest := by
  cases order with
  | nil =>
    obtain rfl : tokens = [] := written
    rfl
  | cons first others =>
    obtain ⟨_, ⟨_, ⟨token, isOrder, rfl⟩, _, ⟨next, isBy, rfl⟩, rfl⟩, keys, areKeys, rfl⟩ := written
    -- A comma and the tokens of a key go on with the clause.
    have extent : clauseLength 0 (keys ++ rest) = keys.length := by
      have comma : Continues (.punctuation ',') := ⟨rfl, by simp, isOneOf_of_nameless rfl⟩
      have key : ∀ written : WrittenColumn, Each Continues (sortKey written) := fun written =>
        continues_of_isPlain (isPlain_sortKey written)
          (lacks_sortKey (by decide) (by decide) written)
      exact clauseLength_continued (Each.listed comma (fun item _ => key item) keys areKeys)
        fun token first => isOneOf_of_subset (by decide) (follows token first)
    -- Each part between the commas is a key, and is read back as the column it was written for.
    have columns : (splitCommas keys).filterMap sortColumn? = (first :: others).filterMap some :=
      filterMap_splitCommas areKeys (by simp)
        (fun item _ part isKey => isPart_of_isPlain (isPlain_sortKey item part isKey))
        fun _ _ => sortColumn?_sortKey
    rw [List.filterMap_some] at columns
    simp [orderColumns, isOrder, isBy, extent, columns, orderColumns_skipped]

end Order

end Native

end IndexAudit
