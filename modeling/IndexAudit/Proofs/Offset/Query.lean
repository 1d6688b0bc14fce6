import IndexAudit.Proofs.Offset.Token
import IndexAudit.Proofs.Query.Extent
import IndexAudit.Proofs.Query.Jpql
import IndexAudit.Query.Native
import Mathlib.Data.List.Basic

/-!
Queries read at the positions of their tokens.

In native queries conditions, joins and orders are cut out between two positions, and each search
goes on at the position where a clause ends. A query in the entity language that is cut short
anywhere leaves no position behind its last token to be read.
-/

namespace IndexAudit

/-! Columns of native queries. -/

namespace SqlToken

/-- The positions of the parts of a token list, the first of which began at an earlier one. -/
def commaSpans (depth start place : Nat) : List SqlToken → List (Nat × Nat)
  | [] => [(start, place)]
  | token :: rest =>
    if token = .punctuation ',' then
      if depth = 0 then (start, place) :: commaSpans depth (place + 1) (place + 1) rest
      else commaSpans depth start (place + 1) rest
    else commaSpans (token.nest.after depth) start (place + 1) rest

/-- The parts of a token list between its outer commas, each cut out at its positions. -/
def splitCommas? (tokens : List SqlToken) : Option (List (List SqlToken)) :=
  (commaSpans 0 0 0 tokens).mapM fun span => between? span.1 span.2 tokens

/-- The parts of the rest of a token list are cut out, the first with what belongs to it already. -/
theorem mapM_commaSpans (depth : Nat) (previous : Option SqlToken) (front part rest : List SqlToken) :
    (commaSpans depth front.length (front.length + part.length) rest).mapM
        (fun span => between? span.1 span.2 (front ++ part ++ rest)) =
      some (part.foldr Cut.extendFirst (Cut.split cutAtComma depth 0 previous rest)) := by
  induction rest generalizing depth previous front part with
  | nil =>
    rw [commaSpans, List.mapM_cons, between?_length, Cut.split, Cut.foldr_extendFirst]
    simp
  | cons token rest ih =>
    -- A token that does not separate is the last of the part so far.
    have goes : ∀ depth, (commaSpans depth front.length (front.length + part.length + 1) rest).mapM
        (fun span => between? span.1 span.2 (front ++ part ++ token :: rest)) =
        some (part.foldr Cut.extendFirst (Cut.extendFirst token
          (Cut.split cutAtComma depth 0 (some token) rest))) := by
      intro depth
      have later := ih depth (some token) front (part ++ [token])
      rw [List.length_append, List.length_singleton, List.foldr_append] at later
      simpa [Nat.add_assoc] using later
    rw [commaSpans, Cut.split, cutAtComma]
    by_cases comma : token = .punctuation ','
    · rw [if_pos comma, if_pos comma]
      by_cases outside : depth = 0
      · have later := ih depth (some token) (front ++ part ++ [token]) []
        have place : (front ++ part ++ [token]).length = front.length + part.length + 1 := by
          simp [Nat.add_assoc]
        have whole : front ++ part ++ [token] ++ [] ++ rest = front ++ part ++ token :: rest := by simp
        rw [place, whole, List.length_nil, Nat.add_zero, List.foldr_nil] at later
        rw [if_pos outside, List.mapM_cons, between?_length, later]
        simp [outside, Cut.foldr_extendFirst]
      · rw [if_neg outside]
        simpa [outside] using goes depth
    · rw [if_neg comma, if_neg comma]
      exact goes _

/-- A token list is divided at its outer commas without fail. -/
theorem splitCommas?_eq (tokens : List SqlToken) : splitCommas? tokens = some (splitCommas tokens) :=
  mapM_commaSpans 0 none [] [] tokens

end SqlToken

namespace Native

/-- The column at a position, with the position behind it. -/
def columnAt? (tokens : List SqlToken) (place : Nat) : Option (WrittenColumn × Nat) :=
  (readColumn? (tokens.drop place)).map fun (column, _) =>
    (column, place + if column.qualifier.isSome then 3 else 1)

/-- The position at which the clause ends that begins at a position. -/
def clauseEnd (tokens : List SqlToken) (place : Nat) : Nat :=
  place + clauseLength 0 (tokens.drop place)

/-- The column in front of a position, if one is there; it fails if a position has no token. -/
def columnEndingAt? (tokens : List SqlToken) (place : Nat) : Option (Option WrittenColumn) :=
  if place = 0 then some none
  else do
    let last ← tokens[place - 1]?
    match last.ident? with
    | none => some none
    | some column =>
      -- A qualifier and its dot need two tokens more.
      if place < 3 then some (some ⟨none, column⟩)
      else do
        let dot ← tokens[place - 2]?
        let first ← tokens[place - 3]?
        some (some ⟨if dot = .punctuation '.' then first.ident? else none, column⟩)

/-- Both sides of the equality at a position, if one is there; it fails if no token is. -/
def equalityAt? (tokens : List SqlToken) (place : Nat) : Option (List WrittenColumn) := do
  let token ← tokens[place]?
  if token = .operator "=" then
    let left ← columnEndingAt? tokens place
    some (left.toList ++ ((columnAt? tokens (place + 1)).map (·.1)).toList)
  else some []

/--
Both sides of the equalities in the conditions of joins from a position on.

It fails if a position has no token, or if there are more steps than there is fuel for.
-/
def equalitiesFrom? (tokens : List SqlToken) : Nat → Nat → Option (List WrittenColumn)
  | 0, _ => none
  | fuel + 1, place =>
    if place < tokens.length then do
      let token ← tokens[place]?
      if token.isKeyword "on" then
        let stop := clauseEnd tokens (place + 1)
        let here ← (List.range' (place + 1) (stop - (place + 1))).mapM (equalityAt? tokens)
        -- The loop goes on behind the condition, as the scan by lists does.
        let later ← equalitiesFrom? tokens fuel stop
        some (here.flatten ++ later)
      else equalitiesFrom? tokens fuel (place + 1)
    else some []

/-- The column that one item of an order consists of; it fails if the cut behind the column does. -/
def sortColumnFrom? (item : List SqlToken) : Option (Option WrittenColumn) :=
  match columnAt? item 0 with
  | none => some none
  | some (column, next) => (between? next item.length item).map fun after =>
    if after.all (·.isOneOf ["asc", "desc", "nulls", "first", "last"]) then some column else none

/--
The columns that results are ordered by, from a position on.

It fails if a position has no token, if a cut does, or if there are more steps than there is fuel
for.
-/
def orderColumnsFrom? (tokens : List SqlToken) : Nat → Nat → Option (List WrittenColumn)
  | 0, _ => none
  | fuel + 1, place =>
    if place + 1 < tokens.length then do
      let token ← tokens[place]?
      let next ← tokens[place + 1]?
      if token.isKeyword "order" && next.isKeyword "by" then
        let stop := clauseEnd tokens (place + 2)
        let items ← SqlToken.splitCommas? (← between? (place + 2) stop tokens)
        let here ← items.mapM sortColumnFrom?
        let later ← orderColumnsFrom? tokens fuel stop
        some (here.flatMap Option.toList ++ later)
      else orderColumnsFrom? tokens fuel (place + 1)
    else some []

/-- The columns that a native query on an entity's table looks rows up by. -/
def columnsFrom? (entityTable : String) (query : String) : Option (List ColumnReference) := do
  let tokens ← SqlToken.tokens? query.toList
  let equal ← equalitiesFrom? tokens (tokens.length + 1) 0
  let order ← orderColumnsFrom? tokens (tokens.length + 1) 0
  let tables := bind false [] tokens
  let joined := equal.filter fun written => !eqIgnoringAsciiCase written.column idField
  let written := conditionColumns tokens ++ joined ++ order
  some ((written.filter fun column => !nonColumns.contains (lower column.column)).filterMap
    fun column => (tableOf? tables entityTable column).map (⟨·, column.column⟩))

/-- A column takes up three tokens with a qualifier, and one without. -/
theorem exists_of_readColumn? {tokens after : List SqlToken} {column : WrittenColumn}
    (read : readColumn? tokens = some (column, after)) :
    ∃ taken, tokens = taken ++ after ∧ taken.length = if column.qualifier.isSome then 3 else 1 := by
  unfold readColumn? at read
  -- A qualifier and its dot take up two tokens more.
  split at read
  case h_1 first second rest =>
    obtain ⟨qualifier, -, read⟩ := Option.bind_eq_some_iff.mp read
    obtain ⟨name, -, same⟩ := Option.bind_eq_some_iff.mp read
    cases same
    exact ⟨[first, .punctuation '.', second], rfl, rfl⟩
  case h_2 first rest _ =>
    split at read
    case isTrue => cases read
    case isFalse =>
      obtain ⟨name, -, same⟩ := Option.map_eq_some_iff.mp read
      cases same
      exact ⟨[first], rfl, rfl⟩
  case h_3 => cases read

/-- What follows the column at a position follows the position behind it. -/
theorem columnAt?_of_readColumn? {tokens after : List SqlToken} (place : Nat)
    {column : WrittenColumn} (read : readColumn? (tokens.drop place) = some (column, after)) :
    ∃ next, columnAt? tokens place = some (column, next) ∧ next ≤ tokens.length ∧
      after = tokens.drop next := by
  obtain ⟨taken, whole, size⟩ := exists_of_readColumn? read
  refine ⟨place + taken.length, by rw [columnAt?, read, size]; rfl, ?_, ?_⟩
  · have sizes := congrArg List.length whole
    rw [List.length_append, List.length_drop] at sizes
    -- A column is not empty, so that its position is one of the list.
    have filled : 0 < taken.length := by rw [size]; split <;> decide
    omega
  · rw [← List.drop_drop, whole, List.drop_left]

/-- The column in front of a position is the one that the tokens before it end with. -/
theorem columnEndingAt?_eq (before rest : List SqlToken) :
    columnEndingAt? (before.reverse ++ rest) before.length = some (columnBefore? before) := by
  cases before with
  | nil => rfl
  | cons last before =>
    have lastAt : ((last :: before).reverse ++ rest)[(last :: before).length - 1]? = some last := by simp
    rw [columnEndingAt?, if_neg (by simp), lastAt]
    simp only [Option.bind_eq_bind, Option.bind_some, columnBefore?, List.head?_cons]
    cases last.ident? with
    | none => rfl
    | some column =>
      rcases before with - | ⟨dot, - | ⟨first, before⟩⟩
      · rfl
      · simp
      -- Counted from the end, the dot is the second and the qualifier the third.
      · have dotAt : ((last :: dot :: first :: before).reverse ++ rest)[(last :: dot :: first ::
            before).length - 2]? = some dot := by simp
        have firstAt : ((last :: dot :: first :: before).reverse ++ rest)[(last :: dot :: first ::
            before).length - 3]? = some first := by simp
        simp only [dotAt, firstAt]
        rw [if_neg (by simp)]
        by_cases dotted : dot = .punctuation '.'
        · simp [dotted]
        · simp [dotted]

/-- The equalities among the first tokens of a rest are found at their positions. -/
theorem mapM_equalityAt? (before : List SqlToken) (left : Nat) (tokens : List SqlToken)
    (within : left ≤ tokens.length) :
    ∃ found, (List.range' before.length left).mapM (equalityAt? (before.reverse ++ tokens)) =
        some found ∧
      equalityColumns before left tokens = found.flatten ++
        equalityColumns ((tokens.take left).reverse ++ before) 0 (tokens.drop left) := by
  induction left generalizing before tokens with
  | zero => exact ⟨[], rfl, rfl⟩
  | succ left ih =>
    cases tokens with
    | nil => simp at within
    | cons token tokens =>
      obtain ⟨found, read, same⟩ := ih (token :: before) tokens (by simpa using within)
      have whole : (token :: before).reverse ++ tokens = before.reverse ++ token :: tokens := by simp
      rw [whole, List.length_cons] at read
      have here : (before.reverse ++ token :: tokens)[before.length]? = some token := by simp
      have behind : (before.reverse ++ token :: tokens).drop (before.length + 1) = tokens := by
        rw [← whole, ← List.length_cons (a := token), ← List.length_reverse, List.drop_left]
      -- To the right of the sign a column begins at the next position.
      have right : (columnAt? (before.reverse ++ token :: tokens) (before.length + 1)).map (·.1) =
          (readColumn? tokens).map (·.1) := by
        rw [columnAt?, behind, Option.map_map]
        rfl
      -- At one position both sides give a column or none, in this order.
      have value : equalityAt? (before.reverse ++ token :: tokens) before.length =
          some (if token = .operator "=" then
            (columnBefore? before).toList ++ ((readColumn? tokens).map (·.1)).toList else []) := by
        rw [equalityAt?, here, columnEndingAt?_eq, right]
        simp only [Option.bind_eq_bind, Option.bind_some]
        split <;> rfl
      refine ⟨_, by rw [List.range'_succ, List.mapM_cons, value, read]; rfl, ?_⟩
      rw [equalityColumns, same, List.flatten_cons, List.append_assoc]
      simp

/-- Tokens in front of the condition of a join are passed over. -/
theorem equalityColumns_skip (before rest : List SqlToken) {token : SqlToken}
    (other : token.isKeyword "on" = false) :
    equalityColumns before 0 (token :: rest) = equalityColumns (token :: before) 0 rest := by
  simp [equalityColumns, other]

/-- The equalities of joins are found from each position on. -/
theorem equalitiesFrom?_eq (fuel : Nat) (before rest : List SqlToken) (enough : rest.length < fuel) :
    equalitiesFrom? (before.reverse ++ rest) fuel before.length =
      some (equalityColumns before 0 rest) := by
  induction fuel generalizing before rest with
  | zero => omega
  | succ fuel ih =>
    rw [equalitiesFrom?]
    cases rest with
    | nil => simp [equalityColumns]
    | cons token rest =>
      have here : (before.reverse ++ token :: rest)[before.length]? = some token := by simp
      have whole : before.reverse ++ token :: rest = (token :: before).reverse ++ rest := by simp
      have behind : (before.reverse ++ token :: rest).drop (before.length + 1) = rest := by
        rw [whole, ← List.length_cons (a := token), ← List.length_reverse, List.drop_left]
      rw [List.length_cons] at enough
      rw [if_pos (by simp), here]
      simp only [Option.bind_eq_bind, Option.bind_some]
      by_cases joins : token.isKeyword "on"
      -- A condition is searched to its end, and the rest from there on.
      · obtain ⟨found, read, same⟩ := mapM_equalityAt? (token :: before) (clauseLength 0 rest) rest
          (clauseLength_le 0 rest)
        have size := clauseLength_le 0 rest
        have next : ((rest.take (clauseLength 0 rest)).reverse ++ token :: before).length =
            before.length + 1 + clauseLength 0 rest := by
          rw [List.length_append, List.length_reverse, List.length_take, List.length_cons]
          omega
        have later := ih ((rest.take (clauseLength 0 rest)).reverse ++ token :: before)
          (rest.drop (clauseLength 0 rest)) (by rw [List.length_drop]; omega)
        rw [List.reverse_append, List.reverse_reverse, List.append_assoc, List.take_append_drop, next,
          ← whole] at later
        rw [← whole, List.length_cons] at read
        rw [if_pos joins, clauseEnd, behind, Nat.add_sub_cancel_left, read, Option.bind_some, later,
          equalityColumns, if_pos joins, same]
        rfl
      -- No join begins here, so the search goes on at the next position.
      · have later := ih (token :: before) rest (by omega)
        rw [← whole, List.length_cons] at later
        rw [if_neg joins, later, equalityColumns_skip _ _ (Bool.eq_false_iff.mpr joins)]

/-- The column of an item of an order is found without fail. -/
theorem sortColumnFrom?_eq (item : List SqlToken) : sortColumnFrom? item = some (sortColumn? item) := by
  rw [sortColumnFrom?, sortColumn?]
  -- Both read the same column, and one takes what is behind it by offsets.
  cases read : readColumn? item with
  | none => simp [columnAt?, read]
  | some entry =>
    obtain ⟨column, after⟩ := entry
    obtain ⟨next, found, within, rfl⟩ := columnAt?_of_readColumn? 0 read
    rw [found]
    simp only [between?_drop within]
    rfl

/-- Tokens are passed over one by one. -/
theorem orderColumns_drop (left : Nat) (tokens : List SqlToken) :
    orderColumns left tokens = orderColumns 0 (tokens.drop left) := by
  -- Each token that is passed over lowers the count by one.
  induction left generalizing tokens with
  | zero => rfl
  | succ left ih =>
    cases tokens with
    | nil => rfl
    | cons token tokens => rw [orderColumns, ih, List.drop_succ_cons]

/-- The columns that results are ordered by are found from each position on. -/
theorem orderColumnsFrom?_eq (tokens : List SqlToken) (fuel place : Nat)
    (enough : tokens.length - place < fuel) :
    orderColumnsFrom? tokens fuel place = some (orderColumns 0 (tokens.drop place)) := by
  induction fuel generalizing place with
  | zero => omega
  | succ fuel ih =>
    rw [orderColumnsFrom?]
    rcases rest : tokens.drop place with _ | ⟨token, _ | ⟨next, clause⟩⟩
    case nil | cons.nil =>
      -- Fewer than two tokens are no keyword of an order.
      have size := congrArg List.length rest
      rw [List.length_drop] at size
      simp only [List.length_cons, List.length_nil] at size
      rw [if_neg (by omega)]
      simp [orderColumns]
    case cons.cons =>
      have size := congrArg List.length rest
      rw [List.length_drop, List.length_cons, List.length_cons] at size
      have here : tokens[place]? = some token := by rw [← List.head?_drop, rest]; rfl
      have second : tokens.drop (place + 1) = next :: clause := by rw [← List.drop_drop, rest]; rfl
      have third : tokens.drop (place + 2) = clause := by rw [← List.drop_drop, rest]; rfl
      have behind : tokens[place + 1]? = some next := by rw [← List.head?_drop, second]; rfl
      rw [if_pos (by omega), here, behind]
      simp only [Option.bind_eq_bind, Option.bind_some]
      rw [orderColumns]
      by_cases orders : (token.isKeyword "order" && next.isKeyword "by") = true
      · have short := clauseLength_le 0 clause
        have cut : between? (place + 2) (clauseEnd tokens (place + 2)) tokens =
            some (clause.take (clauseLength 0 clause)) := by
          rw [between?, clauseEnd, third, if_pos ⟨Nat.le_add_right _ _, by omega⟩, List.drop_take, third,
            Nat.add_sub_cancel_left]
        have later := ih (clauseEnd tokens (place + 2)) (by rw [clauseEnd, third]; omega)
        rw [if_pos orders, cut, Option.bind_some, SqlToken.splitCommas?_eq, Option.bind_some,
          mapM_total sortColumnFrom?_eq, Option.bind_some, later, Option.bind_some]
        have passed : orderColumns (clauseLength 0 clause + 1) (next :: clause) =
            orderColumns 0 (tokens.drop (clauseEnd tokens (place + 2))) := by
          rw [orderColumns_drop, List.drop_succ_cons, clauseEnd, third, ← List.drop_drop, third]
        rw [List.flatMap_map, ← List.filterMap_eq_flatMap_toList]
        simp only [List.head?_cons, Option.any_some, orders, if_true, List.drop_succ_cons, List.drop_zero,
          passed]
      · have later := ih (place + 1) (by omega)
        rw [if_neg orders, later, second]
        simp [orders]

/-- The columns of a native query are found without fail. -/
theorem columnsFrom?_eq (entityTable query : String) :
    columnsFrom? entityTable query = some (columns entityTable query) := by
  have equal := equalitiesFrom?_eq ((SqlToken.ofString query).length + 1) []
    (SqlToken.ofString query) (Nat.lt_succ_self _)
  have order := orderColumnsFrom?_eq (SqlToken.ofString query)
    ((SqlToken.ofString query).length + 1) 0 (by omega)
  -- Both loops begin with the first token, with nothing in front.
  rw [List.reverse_nil, List.nil_append, List.length_nil] at equal
  rw [columnsFrom?, SqlToken.tokens?_eq]
  simp only [Option.bind_eq_bind, Option.bind_some]
  rw [← SqlToken.ofString, equal, order]
  rfl

end Native

/-! References in the entity query language. -/

namespace Jpql

variable (mappings : Mappings) (aliases : Aliases)

/-- Whether a dot stands in front of a position; it fails if no token does, the start apart. -/
def afterDot? (tokens : List PathToken) (place : Nat) : Option Bool :=
  if 0 < place then (tokens[place - 1]?).map (·.token == .punctuation '.') else some false

/--
The reference at a position, if there is one.

It fails if the position, one of the two behind it or the one in front of it has no token.
-/
def referenceFrom? (tokens : List PathToken) (place : Nat) : Option (Option ColumnReference) := do
  let first ← tokens[place]?
  let dot ← tokens[place + 1]?
  let field ← tokens[place + 2]?
  let afterDot ← afterDot? tokens place
  some do
    let field ← if dot.token = .punctuation '.' then field.token.ident? else none
    let name ← first.token.ident?
    if first.inJoinPath || afterDot then none
    else
      let entity ← (← aliases.lookup (lower name))
      let mapping ← mappings.find entity
      some ⟨mapping.tableName, mapping.resolve field⟩

/-- The references at all positions that two more follow. -/
def referencesFrom? (tokens : List PathToken) : Option (List ColumnReference) :=
  ((List.range' 0 (tokens.length - 2)).mapM (referenceFrom? mappings aliases tokens)).map fun found =>
    found.flatMap Option.toList

/-- The columns that a query refers to, in the order of the text. -/
def columnsFrom? (query : String) : Option (List ColumnReference) := do
  let declared := declare false [] (← SqlToken.tokens? query.toList)
  referencesFrom? mappings declared.1 declared.2

/-- The token in front of a position is the last of those before it. -/
theorem afterDot?_length (front rest : List PathToken) :
    afterDot? (front ++ rest) front.length = some (endsInDot front) := by
  -- Without a token in front there is no dot, and otherwise the last one is looked at.
  rcases List.eq_nil_or_concat front with rfl | ⟨front, last, rfl⟩
  · rfl
  · simp [afterDot?, endsInDot]

/-- The references of the rest of a token list are found at their positions. -/
theorem mapM_referenceFrom? (front rest : List PathToken) :
    ∃ found, (List.range' front.length (rest.length - 2)).mapM
        (referenceFrom? mappings aliases (front ++ rest)) = some found ∧
      found.flatMap Option.toList = references mappings aliases (endsInDot front) rest := by
  induction rest generalizing front with
  | nil => exact ⟨[], rfl, rfl⟩
  | cons first rest ih =>
    -- No position counts that fewer than two tokens follow.
    match rest with
    | [] => exact ⟨[], rfl, by simp [references]⟩
    | [_] => exact ⟨[], rfl, by simp [references]⟩
    | dot :: field :: rest =>
      obtain ⟨found, read, same⟩ := ih (front ++ [first])
      have here : (front ++ first :: dot :: field :: rest)[front.length]? = some first := by simp
      have second : (front ++ first :: dot :: field :: rest)[front.length + 1]? = some dot := by simp
      have third : (front ++ first :: dot :: field :: rest)[front.length + 2]? = some field := by simp
      have size : (first :: dot :: field :: rest).length - 2 = rest.length + 1 := by simp
      rw [List.append_assoc, List.singleton_append, List.length_append, List.length_singleton,
        show (dot :: field :: rest).length - 2 = rest.length by simp] at read
      rw [size, List.range'_succ, List.mapM_cons, read, referenceFrom?, here, second, third,
        afterDot?_length]
      refine ⟨_, rfl, ?_⟩
      have last : endsInDot (front ++ [first]) = (first.token == .punctuation '.') := by
        simp [endsInDot]
      rw [List.flatMap_cons, same, last]
      rfl

/-- The columns that a query refers to are found without fail. -/
theorem columnsFrom?_eq (query : String) :
    columnsFrom? mappings query = some (columns mappings query) := by
  -- References are found one by one, behind none at first.
  obtain ⟨found, read, same⟩ := mapM_referenceFrom? mappings
    (declare false [] (SqlToken.ofString query)).1 [] (declare false [] (SqlToken.ofString query)).2
  simp only [List.length_nil, List.nil_append] at read
  rw [columnsFrom?, SqlToken.tokens?_eq, columns]
  simp only [Option.bind_eq_bind, Option.bind_some, referencesFrom?]
  rw [← SqlToken.ofString, read, Option.map_some, same]
  rfl

end Jpql

end IndexAudit
