import IndexAudit.Proofs.Query.Clause

/-!
The columns of conditions.

A column is read behind each word that connects conditions if an operator follows it; no other
token of a condition is read, the word between the bounds of a range included.
-/

namespace IndexAudit

namespace Native

open SqlToken
open scoped Computability

/-- The words behind which conditions stand. -/
def connectors : List String :=
  ["where", "and", "or"]

/-- The words between conditions are such words. -/
theorem mem_connector {tokens : List SqlToken} (written : tokens ∈ keyword "and" + keyword "or") :
    ∃ token : SqlToken, token.isOneOf connectors = true ∧ tokens = [token] := by
  -- One of the two words is written, as a token by itself.
  rcases written with ⟨token, found, rfl⟩ | ⟨token, found, rfl⟩
  · exact ⟨token, isOneOf_keyword found, rfl⟩
  · exact ⟨token, isOneOf_keyword found, rfl⟩

/-- Where no condition can begin, none is read. -/
theorem conditionColumns_passed {passed : List SqlToken}
    (lacks : ∀ token ∈ passed, token.isOneOf connectors = false) (rest : List SqlToken) :
    conditionColumns (passed ++ rest) = conditionColumns rest := by
  induction passed with
  | nil => rfl
  | cons token passed ih =>
    -- Conditions begin behind a connector only, so the first token is passed.
    obtain ⟨here, later⟩ := List.forall_mem_cons.mp lacks
    rw [connectors] at here
    simp [conditionColumns, here, ih later]

/-- Where an operator begins, no dot does. -/
theorem head?_ne_of_startsOperator {tokens : List SqlToken}
    (starts : startsOperator tokens = true) : tokens.head? ≠ some (.punctuation '.') := by
  cases tokens with
  | nil => simp
  | cons token rest =>
    -- A dot is neither a comparison nor a word.
    rintro found
    obtain rfl := Option.some.inj found
    simp [startsOperator, comparisons, isOneOf, isKeyword] at starts

/-- One of the keywords of operators begins one. -/
theorem startsOperator_keyword {word : String} {tokens : List SqlToken}
    (written : tokens ∈ keyword word)
    (listed : ["is", "in", "between", "like", "ilike"].any (eqIgnoringAsciiCase word ·) = true)
    (rest : List SqlToken) : startsOperator (tokens ++ rest) = true := by
  -- It is found among the words, whatever follows it.
  obtain ⟨token, found, rfl⟩ := written
  simp [startsOperator, isOneOf_keyword found, listed]

/-- A keyword that can be negated begins an operator with or without its negation. -/
theorem startsOperator_negated {word : String} {negation tokens : List SqlToken}
    (negated : negation ∈ optional (keyword "not")) (written : tokens ∈ keyword word)
    (listed : ["in", "between", "like", "ilike"].any (eqIgnoringAsciiCase word ·) = true)
    (rest : List SqlToken) : startsOperator (negation ++ (tokens ++ rest)) = true := by
  -- With the negation, the keyword is the second token; without it, the first.
  rcases mem_optional.mp negated with ⟨token, found, rfl⟩ | rfl
  · obtain ⟨next, foundNext, rfl⟩ := written
    simp [startsOperator, found, isOneOf_keyword foundNext, listed]
  · refine startsOperator_keyword written ?_ rest
    rw [List.any_cons, listed, Bool.or_true]

/-- What a condition says of its column begins with an operator. -/
theorem startsOperator_test {tokens : List SqlToken} (written : tokens ∈ test)
    (rest : List SqlToken) : startsOperator (tokens ++ rest) = true := by
  -- The forms of a condition, each by its own operator.
  rcases written with (((compared | nothing) | among) | matched) | bounded
  · obtain ⟨_, ⟨text, listed, rfl⟩, _, -, rfl⟩ := compared
    have found : comparisons.any (SqlToken.operator text == .operator ·) = true :=
      List.any_eq_true.mpr ⟨text, listed, by simp⟩
    simp [startsOperator, found]
  · obtain ⟨_, ⟨_, isKeyword, _, -, rfl⟩, _, -, rfl⟩ := nothing
    simp only [List.append_assoc]
    exact startsOperator_keyword isKeyword (by decide) _
  · obtain ⟨_, ⟨_, ⟨_, ⟨_, negated, _, isKeyword, rfl⟩, _, -, rfl⟩, _, -, rfl⟩, _, -, rfl⟩ := among
    simp only [List.append_assoc]
    exact startsOperator_negated negated isKeyword (by decide) _
  · obtain ⟨_, ⟨_, negated, _, isKeyword | isKeyword, rfl⟩, _, -, rfl⟩ := matched
    all_goals
      simp only [List.append_assoc]
      exact startsOperator_negated negated isKeyword (by decide) _
  · obtain ⟨_, ⟨_, ⟨_, ⟨_, negated, _, isKeyword, rfl⟩, _, -, rfl⟩, _, -, rfl⟩, _, -, rfl⟩ :=
      bounded
    simp only [List.append_assoc]
    exact startsOperator_negated negated isKeyword (by decide) _

/-- The words that may follow a condition. -/
def conditionEnds : List String :=
  ["and", "or", "order", "limit", "for"]

/-- What follows a condition begins no operator. -/
theorem Follows.startsOperator_eq {rest : List SqlToken} (follows : Follows conditionEnds rest) :
    startsOperator rest = false := by
  cases rest with
  | nil => rfl
  | cons token rest =>
    have operators : token.isOneOf ["is", "in", "between", "like", "ilike"] = false :=
      follows.isOneOf_eq (by decide) token rfl
    have negation : token.isOneOf ["not"] = false := follows.isOneOf_eq (by decide) token rfl
    -- What follows is a keyword, and no operator is one.
    have compares : ∀ text, token ≠ .operator text := fun text same =>
      follows.head?_ne (show ident? (.operator text) = none from rfl) (congrArg some same)
    rw [isOneOf, List.any_cons, List.any_nil, Bool.or_false] at negation
    simp [startsOperator, compares, operators, negation]

/-- An operand is one token, unless it begins with a sign. -/
theorem operand_begins {tokens : List SqlToken} (written : tokens ∈ operand) :
    ∃ first later, tokens = first :: later ∧ first ≠ .punctuation '(' ∧
      (first.ident? = none ∨ later = []) := by
  have word : ∀ own, tokens ∈ keyword own → ∃ first later, tokens = first :: later ∧
      first ≠ .punctuation '(' ∧ (first.ident? = none ∨ later = []) := by
    rintro own ⟨token, found, rfl⟩
    exact ⟨token, [], rfl, by rintro rfl; simp [isKeyword] at found, .inr rfl⟩
  -- A number may have a sign in front; the other operands are one token each.
  rcases written with ((((number | text) | null) | yes) | no) | parameter
  · obtain ⟨_, sign, _, rfl, rfl⟩ := number
    rcases mem_optional.mp sign with (rfl | rfl) | rfl
    · exact ⟨.operator "-", [.number], rfl, by simp, .inl rfl⟩
    · exact ⟨.operator "+", [.number], rfl, by simp, .inl rfl⟩
    · exact ⟨.number, [], rfl, by simp, .inr rfl⟩
  · exact ⟨.string, [], text, by simp, .inr rfl⟩
  · exact word "null" null
  · exact word "true" yes
  · exact word "false" no
  · exact ⟨.parameter, [], parameter, by simp, .inr rfl⟩

/-- No condition stands where an operand does. -/
theorem conditionColumns_operand {word : SqlToken} {tokens rest : List SqlToken}
    (written : tokens ∈ operand) (follows : Follows conditionEnds rest) :
    conditionColumns (word :: (tokens ++ rest)) = conditionColumns rest := by
  have lacks : Lacks connectors operand := lacks_operand (by decide) (by decide)
  rw [conditionColumns, conditionColumns_passed (lacks tokens written)]
  obtain ⟨first, later, rfl, noBracket, sole⟩ := operand_begins written
  rw [List.cons_append, List.dropWhile_cons_of_neg (by simpa using noBracket)]
  -- A sign is no column, and a word could be one, but no operator follows it.
  rcases sole with nameless | rfl
  · simp [readColumn?_of_nameless nameless]
  · rw [List.nil_append, readColumn?_single (follows.head?_ne rfl)]
    cases first.ident? <;> simp [follows.startsOperator_eq]

/-- A column begins with no bracket. -/
theorem dropWhile_column {written : WrittenColumn} {tokens : List SqlToken}
    (isColumn : tokens ∈ column written) (rest : List SqlToken) :
    (tokens ++ rest).dropWhile (· == .punctuation '(') = tokens ++ rest := by
  -- A column begins with a name, qualified or not.
  have named : ∀ token : SqlToken, ∀ text, token.ident? = some text →
      ∀ rest, (token :: rest).dropWhile (· == .punctuation '(') = token :: rest := by
    rintro token text named rest
    refine List.dropWhile_cons_of_neg ?_
    intro bracket
    rw [eq_of_beq bracket] at named
    contradiction
  obtain ⟨qualifier, text⟩ := written
  cases qualifier with
  | none =>
    obtain ⟨-, token, isName, rfl⟩ := mem_name isColumn
    exact named token text isName rest
  | some qualifier =>
    obtain ⟨_, ⟨_, isQualifier, _, rfl, rfl⟩, _, -, rfl⟩ := isColumn
    obtain ⟨-, first, isName, rfl⟩ := mem_name isQualifier
    exact named first qualifier isName _

/-- What a condition says of its column holds no further condition. -/
theorem conditionColumns_test {tokens rest : List SqlToken} (written : tokens ∈ test)
    (follows : Follows conditionEnds rest) :
    conditionColumns (tokens ++ rest) = conditionColumns rest := by
  rcases written with simple | bounded
  · exact conditionColumns_passed (lacks_simpleTest (by decide) (by decide) tokens simple) rest
  · obtain ⟨_, ⟨front, isFront, _, ⟨word, -, rfl⟩, rfl⟩, upper, isUpper, rfl⟩ := bounded
    -- The word between the bounds could connect conditions, but it stands before an operand.
    have negation : Lacks connectors (optional (keyword "not")) :=
      (lacks_keyword (by decide) (by decide) (by decide)).optional
    have between : Lacks connectors (keyword "between") :=
      lacks_keyword (by decide) (by decide) (by decide)
    have lower : Lacks connectors operand := lacks_operand (by decide) (by decide)
    simp only [List.append_assoc, List.cons_append, List.nil_append]
    rw [conditionColumns_passed (((negation.mul between).mul lower) front isFront),
      conditionColumns_operand isUpper follows]

/-- A condition behind one of the words for it is read as its column. -/
theorem conditionColumns_condition {word : SqlToken} {written : WrittenColumn}
    {before tokens rest : List SqlToken} (connects : word.isOneOf connectors = true)
    (isColumn : before ∈ column written) (isTest : tokens ∈ test)
    (follows : Follows conditionEnds rest) :
    conditionColumns (word :: (before ++ (tokens ++ rest))) = written :: conditionColumns rest := by
  -- The test begins with an operator, so no dot comes behind the column.
  have starts := startsOperator_test isTest rest
  have lacks : Lacks connectors (column written) := lacks_column (by decide) written
  rw [connectors] at connects
  rw [conditionColumns, if_pos connects, dropWhile_column isColumn,
    readColumn?_column isColumn (head?_ne_of_startsOperator starts),
    conditionColumns_passed (lacks before isColumn), conditionColumns_test isTest follows]
  simp [starts]

/-- The words that may follow all conditions. -/
def queryEnds : List String :=
  ["order", "limit", "for"]

/-- What follows all conditions follows each of them. -/
theorem follows_connected {conditions : List WrittenColumn} {tokens rest : List SqlToken}
    (written : tokens ∈ connected conditions) (follows : Follows queryEnds rest) :
    Follows conditionEnds (tokens ++ rest) := by
  cases conditions with
  | nil =>
    obtain rfl : tokens = [] := written
    exact fun token first => isOneOf_of_subset (by decide) (follows token first)
  | cons next conditions =>
    obtain ⟨_, ⟨_, ⟨_, word, _, -, rfl⟩, _, -, rfl⟩, _, -, rfl⟩ := written
    simp only [List.append_assoc]
    -- Either connector is one of the words that end a condition.
    rcases word with both | either
    · exact follows_keyword both (by decide) _
    · exact follows_keyword either (by decide) _

/-- Connected conditions are read as their columns. -/
theorem conditionColumns_connected {conditions : List WrittenColumn} {tokens rest : List SqlToken}
    (written : tokens ∈ connected conditions) (follows : Follows queryEnds rest) :
    conditionColumns (tokens ++ rest) = conditions ++ conditionColumns rest := by
  induction conditions generalizing tokens with
  | nil =>
    obtain rfl : tokens = [] := written
    rfl
  | cons next conditions ih =>
    obtain ⟨_, ⟨_, ⟨_, word, _, isColumn, rfl⟩, _, isTest, rfl⟩, later, isLater, rfl⟩ := written
    obtain ⟨token, connects, rfl⟩ := mem_connector word
    simp only [List.append_assoc, List.cons_append, List.nil_append]
    -- Each condition gives its column, and what follows it begins the next one.
    rw [conditionColumns_condition connects isColumn isTest (follows_connected isLater follows),
      ih isLater]

/-- The conditions of a statement are read as their columns. -/
theorem conditionColumns_where {conditions : List WrittenColumn} {tokens rest : List SqlToken}
    (written : tokens ∈ whereClause conditions) (follows : Follows queryEnds rest) :
    conditionColumns (tokens ++ rest) = conditions ++ conditionColumns rest := by
  cases conditions with
  | nil =>
    obtain rfl : tokens = [] := written
    rfl
  | cons next conditions =>
    -- The clause is its keyword with the first condition, and the others with their connectors.
    obtain ⟨_, ⟨_, ⟨_, ⟨token, found, rfl⟩, _, isColumn, rfl⟩, _, isTest, rfl⟩, later, isLater,
      rfl⟩ := written
    simp only [List.append_assoc, List.cons_append, List.nil_append]
    rw [conditionColumns_condition (isOneOf_keyword found) isColumn isTest
      (follows_connected isLater follows), conditionColumns_connected isLater follows]

end Native

end IndexAudit
