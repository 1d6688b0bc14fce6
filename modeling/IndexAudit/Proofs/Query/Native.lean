import IndexAudit.Proofs.Query.Scope
import IndexAudit.Proofs.Sql.Spelling

/-!
The columns of plain select statements.

Conditions, joins and the order are each found where they stand, and each column goes to the table
that its statement means by it.
-/

namespace IndexAudit

namespace Native

open SqlToken
open scoped Computability

section Lacks

variable {words : List String}

/-- The front of a statement has two keywords. -/
theorem lacks_front (known : words ⊆ keywords) (apart : "select" ∉ words) :
    Lacks words (keyword "select" * lone (.operator "*")) :=
  -- The star is a mark, and the other word is apart.
  (lacks_keyword known (by decide) apart).mul (lacks_lone rfl)

/-- Joins have no keywords but their own. -/
theorem lacks_joins (known : words ⊆ keywords) (apart : ∀ own ∈ ["join", "as", "on"], own ∉ words)
    (joins : List Join) : Lacks words (joinClauses joins) := by
  induction joins with
  | nil => exact .one
  | cons next joins ih =>
    -- A join is two keywords, a table and two columns.
    have join : Lacks words (keyword "join") :=
      lacks_keyword known (by decide) (apart "join" (by simp))
    have on : Lacks words (keyword "on") :=
      lacks_keyword known (by decide) (apart "on" (by simp))
    have use : Lacks words next.use.written := lacks_use known (apart "as" (by simp)) next.use
    exact (((((join.mul use).mul on).mul (lacks_column known _)).mul (lacks_lone rfl)).mul
      (lacks_column known _)).mul ih

/-- Connected conditions have no keywords but their own. -/
theorem lacks_connected (known : words ⊆ keywords)
    (apart : ∀ own ∈ "or" :: "and" :: testWords, own ∉ words) (conditions : List WrittenColumn) :
    Lacks words (connected conditions) := by
  induction conditions with
  | nil => exact .one
  | cons next conditions ih =>
    -- A condition is its connector, a column and a test.
    have both : Lacks words (keyword "and") :=
      lacks_keyword known (by decide) (apart "and" (by simp))
    have either : Lacks words (keyword "or") :=
      lacks_keyword known (by decide) (apart "or" (by simp))
    have tested : Lacks words test :=
      lacks_test known fun own listed => apart own (List.mem_cons_of_mem "or" listed)
    exact (((both.add either).mul (lacks_column known next)).mul tested).mul ih

/-- The conditions of a statement have no keywords but their own. -/
theorem lacks_where (known : words ⊆ keywords)
    (apart : ∀ own ∈ "where" :: "or" :: "and" :: testWords, own ∉ words)
    (conditions : List WrittenColumn) : Lacks words (whereClause conditions) := by
  cases conditions with
  | nil => exact .one
  | cons next conditions =>
    -- The first condition has its keyword, and the others are connected to it.
    have start : Lacks words (keyword "where") :=
      lacks_keyword known (by decide) (apart "where" (by simp))
    have tested : Lacks words test := lacks_test known fun own listed =>
      apart own (List.mem_cons_of_mem "where" (List.mem_cons_of_mem "or" listed))
    exact ((start.mul (lacks_column known next)).mul tested).mul
      (lacks_connected known (fun own listed => apart own (List.mem_cons_of_mem "where" listed))
        conditions)

/-- An order has no keywords but its own. -/
theorem lacks_order (known : words ⊆ keywords)
    (apart : ∀ own ∈ "order" :: "by" :: sortWords, own ∉ words) (order : List WrittenColumn) :
    Lacks words (orderClause order) := by
  cases order with
  | nil => exact .one
  | cons next order =>
    -- An order is two keywords and a list of sort keys.
    have start : Lacks words (keyword "order") :=
      lacks_keyword known (by decide) (apart "order" (by simp))
    have by' : Lacks words (keyword "by") :=
      lacks_keyword known (by decide) (apart "by" (by simp))
    have key : ∀ written : WrittenColumn, Lacks words (sortKey written) :=
      lacks_sortKey known fun own listed => apart own (by simp [listed])
    exact (start.mul by').mul (Each.listed (isOneOf_of_nameless rfl) fun item _ => key item)

/-- A limit has no keywords but its own. -/
theorem lacks_limit (known : words ⊆ keywords)
    (apart : ∀ own ∈ ["limit", "null", "true", "false"], own ∉ words) :
    Lacks words (optional (keyword "limit" * operand)) := by
  -- A limit is its keyword with an operand.
  have start : Lacks words (keyword "limit") :=
    lacks_keyword known (by decide) (apart "limit" (by simp))
  exact (start.mul (lacks_operand known fun own listed => apart own (by simp [listed]))).optional

end Lacks

/-- The clauses that a select statement is written with, one behind the other. -/
structure Select.Clauses (select : Select) where
  front : List SqlToken
  start : SqlToken
  use : List SqlToken
  joins : List SqlToken
  conditions : List SqlToken
  order : List SqlToken
  limit : List SqlToken
  isFront : front ∈ keyword "select" * lone (.operator "*")
  isStart : start.isKeyword "from" = true
  isUse : use ∈ select.first.written
  isJoins : joins ∈ joinClauses select.joins
  isConditions : conditions ∈ whereClause select.conditions
  isOrder : order ∈ orderClause select.order
  isLimit : limit ∈ optional (keyword "limit" * operand)

namespace Select.Clauses

variable {select : Select}

/-- The tokens of the clauses. -/
def tokens (clauses : select.Clauses) : List SqlToken :=
  clauses.front ++ clauses.start :: (clauses.use ++ (clauses.joins ++
    (clauses.conditions ++ (clauses.order ++ clauses.limit))))

/-- A statement is written as its clauses. -/
theorem mem_written_iff {tokens : List SqlToken} :
    tokens ∈ select.written ↔ ∃ clauses : select.Clauses, tokens = clauses.tokens := by
  -- Both sides say the same of each clause, once their tokens are put behind each other.
  constructor
  · rintro ⟨_, ⟨_, ⟨_, ⟨_, ⟨_, ⟨front, isFront, _, ⟨start, isStart, rfl⟩, rfl⟩, use, isUse, rfl⟩,
      joins, isJoins, rfl⟩, conditions, isConditions, rfl⟩, order, isOrder, rfl⟩, limit, isLimit,
      rfl⟩
    exact ⟨⟨front, start, use, joins, conditions, order, limit, isFront, isStart, isUse, isJoins,
      isConditions, isOrder, isLimit⟩, by simp [tokens]⟩
  · rintro ⟨clauses, rfl⟩
    refine ⟨_, ⟨_, ⟨_, ⟨_, ⟨_, ⟨_, clauses.isFront, _, ⟨_, clauses.isStart, rfl⟩, rfl⟩, _,
      clauses.isUse, rfl⟩, _, clauses.isJoins, rfl⟩, _, clauses.isConditions, rfl⟩, _,
      clauses.isOrder, rfl⟩, _, clauses.isLimit, ?_⟩
    simp [tokens]

variable (clauses : select.Clauses) {rest : List SqlToken}

/-- Behind the order, a limit or a row lock may follow. -/
theorem follows_order (follows : Follows ["for"] rest) :
    Follows orderEnds (clauses.limit ++ rest) := by
  -- With a limit its keyword follows, and without one the lock does, if there is any.
  rcases mem_optional.mp clauses.isLimit with ⟨_, isLimit, _, -, same⟩ | same
  · rw [← same]
    simp only [List.append_assoc]
    exact follows_keyword isLimit (by decide) _
  · rw [same]
    exact fun token first => isOneOf_of_subset (by decide) (follows token first)

/-- Behind the conditions, an order may follow. -/
theorem follows_conditions (follows : Follows ["for"] rest) :
    Follows queryEnds (clauses.order ++ (clauses.limit ++ rest)) := by
  have isOrder := clauses.isOrder
  -- Without an order, what follows it follows the conditions.
  cases order : select.order with
  | nil =>
    rw [order] at isOrder
    rw [show clauses.order = [] from isOrder]
    exact fun token first =>
      isOneOf_of_subset (by decide) (clauses.follows_order follows token first)
  | cons next others =>
    rw [order] at isOrder
    obtain ⟨_, ⟨_, begins, _, -, rfl⟩, _, -, same⟩ := isOrder
    rw [← same]
    simp only [List.append_assoc]
    exact follows_keyword begins (by decide) _

/-- Behind the joins, conditions may follow. -/
theorem follows_tables (follows : Follows ["for"] rest) :
    Follows tableEnds (clauses.conditions ++ (clauses.order ++ (clauses.limit ++ rest))) := by
  have isConditions := clauses.isConditions
  -- Without conditions, what follows them follows the joins.
  cases conditions : select.conditions with
  | nil =>
    rw [conditions] at isConditions
    rw [show clauses.conditions = [] from isConditions]
    exact fun token first =>
      isOneOf_of_subset (by decide) (clauses.follows_conditions follows token first)
  | cons next others =>
    rw [conditions] at isConditions
    obtain ⟨_, ⟨_, ⟨_, begins, _, -, rfl⟩, _, -, rfl⟩, _, -, same⟩ := isConditions
    rw [← same]
    simp only [List.append_assoc]
    exact follows_keyword begins (by decide) _

/-- The front of a statement, up to its first table. -/
def head : List SqlToken :=
  clauses.front ++ clauses.start :: clauses.use

/-- What follows a statement is behind all of its clauses. -/
theorem tokens_append (rest : List SqlToken) :
    clauses.tokens ++ rest = clauses.head ++ (clauses.joins ++ (clauses.conditions ++
      (clauses.order ++ (clauses.limit ++ rest)))) := by
  simp [tokens, head]

/-- The front of a statement has no keywords but its own. -/
theorem lacks_head {words : List String} (known : words ⊆ keywords)
    (apart : ∀ own ∈ ["select", "from", "as"], own ∉ words) :
    ∀ token ∈ clauses.head, token.isOneOf words = false := by
  -- The front ends in its keyword, and the table with its alias follows.
  have front := lacks_front known (apart "select" (by simp)) _ clauses.isFront
  have start : Lacks words (keyword "from") :=
    lacks_keyword known (by decide) (apart "from" (by simp))
  have isStart : [clauses.start] ∈ keyword "from" := ⟨_, clauses.isStart, rfl⟩
  have use := lacks_use known (apart "as" (by simp)) select.first _ clauses.isUse
  exact List.forall_mem_append.mpr ⟨front, List.forall_mem_cons.mpr
    ⟨start _ isStart _ (List.mem_singleton_self _), use⟩⟩

/-- The columns behind the words for conditions are those of the conditions. -/
theorem conditionColumns_eq (follows : Follows ["for"] rest) :
    conditionColumns (clauses.tokens ++ rest) = select.conditions ++ conditionColumns rest := by
  -- Of all clauses only the conditions hold one of the connectors.
  have joins : Lacks connectors (joinClauses select.joins) :=
    lacks_joins (by decide) (by decide) _
  have order : Lacks connectors (orderClause select.order) :=
    lacks_order (by decide) (by decide) _
  have limit : Lacks connectors (optional (keyword "limit" * operand)) :=
    lacks_limit (by decide) (by decide)
  rw [tokens_append, conditionColumns_passed (clauses.lacks_head (by decide) (by decide)),
    conditionColumns_passed (joins _ clauses.isJoins),
    conditionColumns_where clauses.isConditions (clauses.follows_conditions follows),
    conditionColumns_passed (order _ clauses.isOrder),
    conditionColumns_passed (limit _ clauses.isLimit)]

/-- The columns of equalities are those that joins compare. -/
theorem joinColumns_eq (follows : Follows ["for"] rest)
    (quiet : ∀ token ∈ rest, token.isOneOf ["on"] = false) :
    joinColumns (clauses.tokens ++ rest) = select.compared := by
  have conditions : Lacks ["on"] (whereClause select.conditions) :=
    lacks_where (by decide) (by decide) _
  have order : Lacks ["on"] (orderClause select.order) :=
    lacks_order (by decide) (by decide) _
  have limit : Lacks ["on"] (optional (keyword "limit" * operand)) :=
    lacks_limit (by decide) (by decide)
  -- Behind the joins no condition of one begins.
  have later : ∀ token ∈ clauses.conditions ++ (clauses.order ++ (clauses.limit ++ rest)),
      token.isOneOf ["on"] = false :=
    List.forall_mem_append.mpr ⟨conditions _ clauses.isConditions, List.forall_mem_append.mpr
      ⟨order _ clauses.isOrder, List.forall_mem_append.mpr ⟨limit _ clauses.isLimit, quiet⟩⟩⟩
  have nothing := fun before => equalityColumns_passed later before []
  simp only [List.append_nil, equalityColumns] at nothing
  rw [joinColumns, tokens_append,
    equalityColumns_passed (clauses.lacks_head (by decide) (by decide)),
    equalityColumns_joins clauses.isJoins (clauses.follows_tables follows), nothing,
    List.append_nil, Select.compared]

/-- The columns of the order are read from it alone. -/
theorem orderColumns_eq (follows : Follows ["for"] rest) :
    orderColumns 0 (clauses.tokens ++ rest) = select.order ++ orderColumns 0 rest := by
  -- Of all clauses only the order holds the word for it.
  have joins : Lacks ["order"] (joinClauses select.joins) :=
    lacks_joins (by decide) (by decide) _
  have conditions : Lacks ["order"] (whereClause select.conditions) :=
    lacks_where (by decide) (by decide) _
  have limit : Lacks ["order"] (optional (keyword "limit" * operand)) :=
    lacks_limit (by decide) (by decide)
  rw [tokens_append, orderColumns_passed (clauses.lacks_head (by decide) (by decide)),
    orderColumns_passed (joins _ clauses.isJoins),
    orderColumns_passed (conditions _ clauses.isConditions),
    orderColumns_order clauses.isOrder (clauses.follows_order follows),
    orderColumns_passed (limit _ clauses.isLimit)]

/-- The tables of a statement come into scope, and nothing else. -/
theorem bind_eq (follows : Follows ["for"] rest) :
    bind false [] (clauses.tokens ++ rest) = bind false (scope select.uses) rest := by
  have front : Lacks introductions (keyword "select" * lone (.operator "*")) :=
    lacks_front (by decide) (by decide)
  have conditions : Lacks introductions (whereClause select.conditions) :=
    lacks_where (by decide) (by decide) _
  have order : Lacks introductions (orderClause select.order) :=
    lacks_order (by decide) (by decide) _
  have limit : Lacks introductions (optional (keyword "limit" * operand)) :=
    lacks_limit (by decide) (by decide)
  have introduces : Jpql.introduces clauses.start = true := by
    rw [Jpql.introduces, isOneOf_keyword clauses.isStart]
    decide
  -- Each clause in between is passed, as none has a word for tables but the first and the joins.
  have tables := follows_joins clauses.isJoins (clauses.follows_tables follows)
  rw [tokens_append, head, List.append_assoc, bind_passed (front _ clauses.isFront),
    List.cons_append, bind_cons, introduces, bind_use [] clauses.isUse fun token first =>
      isOneOf_of_subset (by decide) (tables token first),
    bind_joins _ clauses.isJoins, bind_passed (conditions _ clauses.isConditions),
    bind_passed (order _ clauses.isOrder), bind_passed (limit _ clauses.isLimit), List.append_nil]
  rfl

end Select.Clauses

/-- A column that a statement is written with is no keyword. -/
theorem notMem_keywords_of_column {written : WrittenColumn} {tokens : List SqlToken}
    (isColumn : tokens ∈ column written) : lower written.column ∉ keywords := by
  obtain ⟨qualifier, text⟩ := written
  -- With a qualifier or without, the column is a name, and no name is a keyword.
  cases qualifier with
  | none => exact (mem_name isColumn).1
  | some qualifier =>
    obtain ⟨_, -, _, isName, -⟩ := isColumn
    exact (mem_name isName).1

/-- The columns of written joins are no keywords. -/
theorem notMem_keywords_of_joins {joins : List Join} {tokens : List SqlToken}
    (written : tokens ∈ joinClauses joins) :
    ∀ join ∈ joins, lower join.left.column ∉ keywords ∧ lower join.right.column ∉ keywords := by
  induction joins generalizing tokens with
  | nil => simp
  | cons next joins ih =>
    -- The first join has a column on either side, and the others are written likewise.
    obtain ⟨_, ⟨_, ⟨_, ⟨_, -, _, isLeft, -⟩, _, -, -⟩, _, isRight, -⟩, _, isLater, -⟩ := written
    exact List.forall_mem_cons.mpr
      ⟨⟨notMem_keywords_of_column isLeft, notMem_keywords_of_column isRight⟩, ih isLater⟩

/-- The columns of connected conditions are no keywords. -/
theorem notMem_keywords_of_connected {conditions : List WrittenColumn} {tokens : List SqlToken}
    (written : tokens ∈ connected conditions) :
    ∀ written ∈ conditions, lower written.column ∉ keywords := by
  induction conditions generalizing tokens with
  | nil => simp
  | cons next conditions ih =>
    -- The first condition is a column, and the others are written likewise.
    obtain ⟨_, ⟨_, ⟨_, -, _, isColumn, -⟩, _, -, -⟩, _, isLater, -⟩ := written
    exact List.forall_mem_cons.mpr ⟨notMem_keywords_of_column isColumn, ih isLater⟩

/-- The columns of written conditions are no keywords. -/
theorem notMem_keywords_of_where {conditions : List WrittenColumn} {tokens : List SqlToken}
    (written : tokens ∈ whereClause conditions) :
    ∀ written ∈ conditions, lower written.column ∉ keywords := by
  cases conditions with
  | nil => simp
  | cons next conditions =>
    -- Behind the keyword comes the first condition, with the others connected to it.
    obtain ⟨_, ⟨_, ⟨_, -, _, isColumn, -⟩, _, -, -⟩, _, isLater, -⟩ := written
    exact List.forall_mem_cons.mpr
      ⟨notMem_keywords_of_column isColumn, notMem_keywords_of_connected isLater⟩

/-- The columns of a written order are no keywords. -/
theorem notMem_keywords_of_order {order : List WrittenColumn} {tokens : List SqlToken}
    (written : tokens ∈ orderClause order) :
    ∀ written ∈ order, lower written.column ∉ keywords := by
  cases order with
  | nil => simp
  | cons next order =>
    obtain ⟨_, -, _, areKeys, -⟩ := written
    intro key member
    -- Each key is an item of the list, and begins with its column.
    obtain ⟨part, isKey⟩ := exists_of_mem_listed areKeys key member
    obtain ⟨_, isColumn, _, -, -⟩ := mem_sortKey.mp isKey
    exact notMem_keywords_of_column isColumn

/-- The words that a column could be read behind. -/
def readingWords : List String :=
  ["where", "and", "or", "on", "order"]

namespace Select

/-- A column that a statement refers to is written in one of its clauses. -/
theorem mem_references {select : Select} {written : WrittenColumn}
    (refers : written ∈ select.references) :
    written ∈ select.conditions ++ (select.joins.flatMap fun join => [join.left, join.right]) ++
      select.order := by
  simp only [references, compared, List.mem_append, List.mem_filter] at refers ⊢
  -- Of the joins some columns are left out, but none is added.
  rcases refers with (isCondition | ⟨isJoin, -⟩) | isOrder
  · exact .inl (.inl isCondition)
  · exact .inl (.inr isJoin)
  · exact .inr isOrder

/-- A column that a written statement refers to is no keyword. -/
theorem Clauses.notMem_keywords {select : Select} (clauses : select.Clauses) :
    ∀ written ∈ select.references, lower written.column ∉ keywords := by
  intro written refers
  -- It is written in a condition, on one side of a join, or in the order.
  rcases List.mem_append.mp (mem_references refers) with member | isOrder
  · rcases List.mem_append.mp member with isCondition | isJoin
    · exact notMem_keywords_of_where clauses.isConditions written isCondition
    · obtain ⟨join, isJoined, isSide⟩ := List.mem_flatMap.mp isJoin
      obtain ⟨left, right⟩ := notMem_keywords_of_joins clauses.isJoins join isJoined
      rcases List.mem_pair.mp isSide with rfl | rfl
      · exact left
      · exact right
  · exact notMem_keywords_of_order clauses.isOrder written isOrder

/--
The columns of a statement are those it refers to, each in the table meant by it.

What follows the statement may bring further tables into scope, though it has no columns itself.
-/
theorem Clauses.columns_eq {select : Select} (clauses : select.Clauses) {rest : List SqlToken}
    (follows : Follows ["for"] rest)
    (quiet : ∀ token ∈ rest, token.isOneOf readingWords = false) {query : String}
    (spelled : Spells (clauses.tokens ++ rest) query.toList) (entityTable : String) :
    columns entityTable query = select.references.filterMap fun written =>
      (tableOf? (bind false (scope select.uses) rest) entityTable written).map
        (⟨·, written.column⟩) := by
  have tokens : SqlToken.ofString query = clauses.tokens ++ rest := tokenize_of_spells spelled
  have silent : ∀ words ⊆ readingWords, ∀ token ∈ rest, token.isOneOf words = false := by
    intro words within token member
    by_contra found
    have listed := isOneOf_of_subset within (Bool.not_eq_false _ ▸ found)
    rw [quiet token member] at listed
    contradiction
  have noCondition : conditionColumns rest = [] := by
    have passed := conditionColumns_passed (silent connectors (by decide)) []
    rwa [List.append_nil] at passed
  have noOrder : orderColumns 0 rest = [] := by
    have passed := orderColumns_passed (silent ["order"] (by decide)) []
    rwa [List.append_nil] at passed
  have read : conditionColumns (clauses.tokens ++ rest) ++ joinColumns (clauses.tokens ++ rest) ++
      orderColumns 0 (clauses.tokens ++ rest) = select.references := by
    rw [clauses.conditionColumns_eq follows, noCondition, List.append_nil,
      clauses.joinColumns_eq follows (silent ["on"] (by decide)), clauses.orderColumns_eq follows,
      noOrder, List.append_nil, references]
  -- No column of the statement is one of the words that are never taken for a column.
  have kept : select.references.filter
      (fun written => !nonColumns.contains (lower written.column)) = select.references := by
    refine List.filter_eq_self.mpr ?_
    intro written refers
    have free : lower written.column ∉ nonColumns := fun listed =>
      clauses.notMem_keywords written refers (by simp [keywords, listed])
    simpa using free
  rw [columns, tokens]
  simp only [read, kept, clauses.bind_eq follows]

end Select

/-- Columns that all belong to one table are all kept. -/
theorem filterMap_tableOf? {tables : Tables} {entityTable table : String}
    {references : List WrittenColumn}
    (each : ∀ written ∈ references, tableOf? tables entityTable written = some table) :
    (references.filterMap fun written =>
      (tableOf? tables entityTable written).map (⟨·, written.column⟩)) =
      references.map fun written => (⟨table, written.column⟩ : ColumnReference) := by
  rw [← List.filterMap_eq_map]
  -- Every column is resolved, so none is left out.
  refine List.filterMap_congr ?_
  intro written refers
  rw [each written refers]
  rfl

/--
The columns of a plain select are exactly those that it refers to, in the order of its clauses.

With one table, however often it is read, each reference is kept.
With several, those are kept that are qualified by a name of the entity's table.
-/
theorem columns_plainSelect {select : Select} {tokens : List SqlToken} {query : String}
    (inScope : select.IsScoped) (written : tokens ∈ select.written)
    (spelled : Spells tokens query.toList) (entityTable : String) :
    (∀ table, (∀ use ∈ select.uses, use.table = table) →
      columns entityTable query = select.references.map fun written => ⟨table, written.column⟩) ∧
    ((∃ use ∈ select.uses, use.table ≠ select.first.table) →
      columns entityTable query = select.columnsOf entityTable) := by
  obtain ⟨clauses, rfl⟩ := Select.Clauses.mem_written_iff.mp written
  have spelledWith : Spells (clauses.tokens ++ []) query.toList := by rwa [List.append_nil]
  have read := clauses.columns_eq (follows_nil) (by simp) spelledWith entityTable
  rw [bind_nil] at read
  -- A qualifier of a reference is the name of a table, since the statement is in scope.
  have known : ∀ written ∈ select.references, ∀ qualifier ∈ written.qualifier,
      ∃ use ∈ select.uses, use.IsNamed qualifier :=
    fun written refers => inScope.qualifiers written (Select.mem_references refers)
  constructor
  · intro table only
    rw [read]
    exact filterMap_tableOf? fun written refers =>
      inScope.tableOf?_one only entityTable (known written refers)
  · rintro ⟨other, isOther, apart⟩
    rw [read, Select.columnsOf]
    refine List.filterMap_congr ?_
    intro written refers
    rw [inScope.tableOf?_several isOther (by simp [Select.uses]) apart entityTable
      (known written refers)]
    cases written.qualifier with
    | none => rfl
    | some qualifier =>
      cases found : select.uses.find? fun use => use.IsNamed qualifier with
      | none => simp [found]
      | some use =>
        by_cases same : lower use.table = lower entityTable
        · simp [found, same]
        · simp [found, same]

/-- A statement that reads two tables, with a condition on each and an order. -/
def joinedSelect : Select where
  first := ⟨"users", some "u"⟩
  joins := [⟨⟨"orders", some "o"⟩, ⟨some "u", "id"⟩, ⟨some "o", "user_id"⟩⟩]
  conditions := [⟨some "u", "email"⟩, ⟨some "O", "total"⟩]
  order := [⟨some "orders", "placed"⟩]

/-- A column is written as its qualifier, a dot and its name. -/
theorem mem_column_qualified {qualifier text : String} (first : lower qualifier ∉ keywords)
    (second : lower text ∉ keywords) :
    [.word qualifier, .punctuation '.', .word text] ∈ column ⟨some qualifier, text⟩ :=
  ⟨_, ⟨_, ⟨first, .inl rfl⟩, _, rfl, rfl⟩, _, ⟨second, .inl rfl⟩, rfl⟩

/-- The way that the statement on two tables is written. -/
def joinedClauses : joinedSelect.Clauses where
  front := [.word "SELECT", .operator "*"]
  start := .word "FROM"
  use := [.word "users", .word "u"]
  joins := [.word "JOIN", .word "orders", .word "AS", .word "o", .word "ON", .word "u",
    .punctuation '.', .word "id", .operator "=", .word "o", .punctuation '.', .word "user_id"]
  conditions := [.word "WHERE", .word "u", .punctuation '.', .word "email", .operator "=",
    .parameter, .word "AND", .word "O", .punctuation '.', .word "total", .word "BETWEEN", .number,
    .word "AND", .number]
  order := [.word "ORDER", .word "BY", .word "orders", .punctuation '.', .word "placed",
    .word "DESC"]
  limit := []
  -- Each field proves that the tokens above it are a clause of the grammar.
  isFront := ⟨_, ⟨_, by decide, rfl⟩, _, rfl, rfl⟩
  isStart := by decide
  isUse := ⟨_, ⟨_, ⟨by decide +kernel, .inl rfl⟩, _, .inr rfl, rfl⟩, _,
    ⟨by decide +kernel, .inl rfl⟩, rfl⟩
  isJoins := by
    have use : [.word "orders", .word "AS", .word "o"] ∈ TableUse.written ⟨"orders", some "o"⟩ :=
      ⟨_, ⟨_, ⟨by decide +kernel, .inl rfl⟩, _, .inl ⟨_, by decide, rfl⟩, rfl⟩, _,
        ⟨by decide +kernel, .inl rfl⟩, rfl⟩
    exact ⟨_, ⟨_, ⟨_, ⟨_, ⟨_, ⟨_, ⟨_, by decide, rfl⟩, _, use, rfl⟩, _, ⟨_, by decide, rfl⟩, rfl⟩,
      _, mem_column_qualified (by decide +kernel) (by decide +kernel), rfl⟩, _, rfl, rfl⟩, _,
      mem_column_qualified (by decide +kernel) (by decide +kernel), rfl⟩, _, rfl, rfl⟩
  isConditions := by
    have number : [.number] ∈ operand := .inl (.inl (.inl (.inl (.inl ⟨_, .inr rfl, _, rfl, rfl⟩))))
    have compared : [.operator "=", .parameter] ∈ test :=
      .inl (.inl (.inl (.inl ⟨_, ⟨"=", by decide, rfl⟩, _, .inr rfl, rfl⟩)))
    have bounded : [.word "BETWEEN", .number, .word "AND", .number] ∈ test :=
      .inr ⟨_, ⟨_, ⟨_, ⟨_, .inr rfl, _, ⟨_, by decide, rfl⟩, rfl⟩, _, number, rfl⟩, _,
        ⟨_, by decide, rfl⟩, rfl⟩, _, number, rfl⟩
    exact ⟨_, ⟨_, ⟨_, ⟨_, by decide, rfl⟩, _,
      mem_column_qualified (by decide +kernel) (by decide +kernel), rfl⟩, _, compared, rfl⟩, _,
      ⟨_, ⟨_, ⟨_, .inl ⟨_, by decide, rfl⟩, _,
        mem_column_qualified (by decide +kernel) (by decide +kernel), rfl⟩, _, bounded, rfl⟩, _,
        rfl, rfl⟩, rfl⟩
  isOrder :=
    ⟨_, ⟨_, ⟨_, by decide, rfl⟩, _, ⟨_, by decide, rfl⟩, rfl⟩, _, ⟨_, ⟨_,
      mem_column_qualified (by decide +kernel) (by decide +kernel), _,
      .inl (.inr ⟨_, by decide, rfl⟩), rfl⟩, _, .inr rfl, rfl⟩, rfl⟩
  isLimit := .inr rfl

/-- A text that spells the statement. -/
def joinedText : String :=
  "SELECT * FROM users u JOIN orders AS o ON u.id = o.user_id " ++
    "WHERE u.email = ? AND O.total BETWEEN 1 AND 9 ORDER BY orders.placed DESC"

/-- On two tables, the columns of the entity's table alone are kept. -/
theorem columns_plainSelect_joined :
    columns "Orders" joinedText =
      [⟨"orders", "total"⟩, ⟨"orders", "user_id"⟩, ⟨"orders", "placed"⟩] := by
  -- The text is read as the described statement, which has two tables in scope.
  have inScope : joinedSelect.IsScoped :=
    ⟨by decide +kernel, by decide +kernel, by decide +kernel, by decide +kernel⟩
  have written : joinedClauses.tokens ∈ joinedSelect.written :=
    Select.Clauses.mem_written_iff.mpr ⟨joinedClauses, rfl⟩
  have tokens : tokenize joinedText.toList = joinedClauses.tokens := by decide +kernel
  have apart : ∃ use ∈ joinedSelect.uses, use.table ≠ joinedSelect.first.table := by decide
  have kept : joinedSelect.columnsOf "Orders" =
      [⟨"orders", "total"⟩, ⟨"orders", "user_id"⟩, ⟨"orders", "placed"⟩] := by decide +kernel
  rw [(columns_plainSelect inScope written (tokens ▸ spells_tokenize _) "Orders").2 apart, kept]

end Native

end IndexAudit
