import IndexAudit.Proofs.Query.Declaration
import IndexAudit.Proofs.Sql.Spelling

/-!
The columns of queries over entities.

A reference is an alias at the head of a path, with the field behind it, that stands in no path of
an association. Each one is read where it stands, whether its alias is declared before or behind it.
-/

namespace IndexAudit

namespace Jpql

open SqlToken

/-- Whether the last of some tokens is a dot. -/
def endsInDot (before : List PathToken) : Bool :=
  before.getLast?.any (·.token == .punctuation '.')

/--
The alias and the field at a position of a query, if a reference stands there.

Its alias is a name behind no dot and in no path of an association, and a dot and the field follow.
-/
def referenceAt? (tokens : List PathToken) (position : Nat) : Option (String × String) :=
  match tokens.drop position with
  | first :: dot :: field :: _ =>
    if dot.token = .punctuation '.' ∧ !first.inJoinPath ∧ !endsInDot (tokens.take position) then do
      some (← first.token.ident?, ← field.token.ident?)
    else none
  | _ => none

/-- The column of a field of an alias, if the alias stands for an entity that has a mapping. -/
def columnOf? (mappings : Mappings) (declarations : List Declaration)
    (reference : String × String) : Option ColumnReference := do
  let declaration ← declarations.find? fun declaration =>
    lower declaration.given == lower reference.1
  let mapping ← mappings.find (← declaration.entity)
  some ⟨mapping.tableName, mapping.resolve reference.2⟩

/-- With different aliases, the one found in scope is the one that was declared. -/
theorem lookup_inScope_eq {declarations : List Declaration}
    (apart : (declarations.map fun declaration => lower declaration.given).Nodup) (key : String) :
    (inScope declarations).lookup key =
      (declarations.find? fun declaration => lower declaration.given == key).map (·.entity) := by
  induction declarations with
  | nil => rfl
  | cons first declarations ih =>
    obtain ⟨new, others⟩ := List.nodup_cons.mp apart
    have split : inScope (first :: declarations) =
        inScope declarations ++ [(lower first.given, first.entity)] := by simp [inScope]
    rw [split, List.lookup_append, ih others]
    by_cases same : lower first.given = key
    · -- The alias is declared first, so no later declaration is of the same one.
      have none :
          (declarations.find? fun declaration => lower declaration.given == key) = none := by
        refine List.find?_eq_none.mpr ?_
        intro declaration member found
        refine new (List.mem_map.mpr ⟨declaration, member, ?_⟩)
        exact (beq_iff_eq.mp found).trans same.symm
      simp [none, same]
    · have unlike : (key == lower first.given) = false := beq_eq_false_iff_ne.mpr (Ne.symm same)
      simp [List.lookup_cons, unlike, same]

/-- The column of a field of an alias, if the alias stands in scope for an entity with a mapping. -/
def resolve? (mappings : Mappings) (aliases : Aliases) (reference : String × String) :
    Option ColumnReference := do
  let entity ← (← aliases.lookup (lower reference.1))
  let mapping ← mappings.find entity
  some ⟨mapping.tableName, mapping.resolve reference.2⟩

/-- An alias is looked up among the declarations as it is in scope. -/
theorem columnOf?_eq (mappings : Mappings) {declarations : List Declaration}
    (apart : (declarations.map fun declaration => lower declaration.given).Nodup) :
    columnOf? mappings declarations = resolve? mappings (inScope declarations) := by
  funext reference
  rw [resolve?, lookup_inScope_eq apart, columnOf?]
  cases declarations.find? fun declaration => lower declaration.given == lower reference.1 with
  | none => rfl
  | some declaration =>
    -- An alias of an association is in scope, but stands for no entity.
    cases known : declaration.entity with
    | none => simp [known]
    | some entity => simp [known]

/-- The reference at the front of some tokens is resolved by what is around it. -/
theorem references_cons (mappings : Mappings) (aliases : Aliases) (before : List PathToken)
    (first : PathToken) (rest : List PathToken) :
    references mappings aliases (endsInDot before) (first :: rest) =
      ((referenceAt? (before ++ first :: rest) before.length).bind
        (resolve? mappings aliases)).toList ++
      references mappings aliases (first.token == .punctuation '.') rest := by
  rw [references]
  congr 2
  match rest with
  | [] => simp [referenceAt?]
  | [next] => simp [referenceAt?]
  | dot :: field :: more =>
    by_cases isDot : dot.token = .punctuation '.'
    · cases head : first.token.ident? with
      | none => cases tail : field.token.ident? <;> simp [referenceAt?, isDot, head]
      | some name =>
        cases tail : field.token.ident? with
        | none => simp [referenceAt?, isDot, tail]
        | some text =>
          -- Both sides look the alias up if no dot and no path of an association is around it.
          cases marked : first.inJoinPath <;> cases behind : endsInDot before <;>
            simp [referenceAt?, resolve?, isDot, head, tail, marked, behind]
    · simp [referenceAt?, isDot]

/-- References are resolved one after another, where they stand. -/
theorem references_eq (mappings : Mappings) (aliases : Aliases)
    (before tokens : List PathToken) :
    references mappings aliases (endsInDot before) tokens =
      (List.range' before.length tokens.length).filterMap fun position =>
        (referenceAt? (before ++ tokens) position).bind (resolve? mappings aliases) := by
  induction tokens generalizing before with
  | nil => rfl
  | cons first rest ih =>
    have later := ih (before ++ [first])
    -- Whether a reference continues a path is told by the token in front of it.
    have dot : endsInDot (before ++ [first]) = (first.token == .punctuation '.') := by
      simp [endsInDot]
    rw [dot, List.append_assoc, List.singleton_append, List.length_append, List.length_singleton]
      at later
    rw [references_cons, later, List.length_cons, List.range'_succ, List.filterMap_cons]
    cases (referenceAt? (before ++ first :: rest) before.length).bind
      (resolve? mappings aliases) <;> rfl

/--
The columns of a query over entities are those of its references, in the order of the text.

Each reference is an alias at the head of a path, with the field behind it, that stands in no path
of an association. It yields a column if its alias is declared for an entity that has a mapping,
and nothing if the alias stands for an association or for an entity without one.
-/
theorem columns_isQuery {declarations : List Declaration} {tokens : List PathToken}
    {query : String} (isQuery : IsQuery [] declarations tokens)
    (apart : (declarations.map fun declaration => lower declaration.given).Nodup)
    (spelled : Spells (tokens.map (·.token)) query.toList) (mappings : Mappings) :
    columns mappings query = (List.range tokens.length).filterMap fun position =>
      (referenceAt? tokens position).bind (columnOf? mappings declarations) := by
  have read : SqlToken.ofString query = tokens.map (·.token) := tokenize_of_spells spelled
  have declared := declare_isQuery isQuery (by simp)
  have noScope : inScope [] = [] := rfl
  rw [noScope, List.nil_append] at declared
  -- The place of a reference among the tokens is its place in the text.
  have resolved := references_eq mappings (inScope declarations) [] tokens
  rw [columns, read, declared, List.range_eq_range', columnOf?_eq mappings apart]
  exact resolved

/-- Tokens that introduce nothing may stand around declarations. -/
theorem IsQuery.others {known declarations : List Declaration} {tokens : List SqlToken}
    {rest : List PathToken} (plain : ∀ token ∈ tokens, introduces token = false)
    (later : IsQuery known declarations rest) :
    IsQuery known declarations (tokens.map outside ++ rest) := by
  -- Each token is one step of the relation, so any number of them is a run of steps.
  induction tokens with
  | nil => exact later
  | cons token tokens ih =>
    obtain ⟨here, others⟩ := List.forall_mem_cons.mp plain
    exact .other here (ih others)

/-- Two entities, and an association of the first one. -/
def orderDeclarations : List Declaration :=
  [⟨"o", some "Order"⟩, ⟨"i", some "Item"⟩, ⟨"c", none⟩]

/-- The declarations of the entities. -/
def orderEntities : List PathToken :=
  [.word "Order", .word "o"].map outside ++ outside (.punctuation ',') ::
    [.word "Item", .word "AS", .word "i"].map outside

/-- The declaration of the association. -/
def orderAssociation : List PathToken :=
  [.word "o", .punctuation '.', .word "customer"].map inside ++ [.word "c"].map outside

/-- The conditions, with a reference through each alias. -/
def orderConditions : List SqlToken :=
  [.word "WHERE", .word "O", .punctuation '.', .word "total", .operator ">", .number,
    .word "AND", .word "c", .punctuation '.', .word "name", .operator "=", .parameter,
    .word "AND", .word "i", .punctuation '.', .word "id", .operator "=", .number]

/-- A query in which an alias is also used in front of its declaration. -/
def orderQuery : List PathToken :=
  [.word "SELECT", .word "o", .punctuation '.', .word "code"].map outside ++
    outside (.word "FROM") :: (orderEntities ++ outside (.word "LEFT") ::
      outside (.word "JOIN") :: outside (.word "FETCH") ::
        (orderAssociation ++ (orderConditions.map outside ++ [])))

/-- The aliases of the query are those that its clauses declare. -/
theorem isQuery_orderQuery : IsQuery [] orderDeclarations orderQuery := by
  have aliased : ∀ given, lower given ∉ reserved → [.word given] ∈ aliasing given := by
    intro given unreserved
    exact ⟨[], .inr rfl, _, ⟨unreserved, .inl rfl⟩, rfl⟩
  have order : Declares [] ⟨"o", some "Order"⟩ ([.word "Order", .word "o"].map outside) :=
    .entity rfl (by decide) (aliased "o" (by decide +kernel))
  have item : Declares [⟨"o", some "Order"⟩] ⟨"i", some "Item"⟩
      ([.word "Item", .word "AS", .word "i"].map outside) :=
    .entity rfl (by decide)
      ⟨_, .inl ⟨_, by decide, rfl⟩, _, ⟨by decide +kernel, .inl rfl⟩, rfl⟩
  have entities : DeclaresAll [] [⟨"o", some "Order"⟩, ⟨"i", some "Item"⟩] orderEntities :=
    .comma order (.last item)
  -- The path begins with an alias that the entities declare, so it is an association.
  have customer : Declares [⟨"o", some "Order"⟩, ⟨"i", some "Item"⟩] ⟨"c", none⟩
      orderAssociation :=
    .association (.segment rfl (.last rfl)) (by simp) (.head _) rfl
      (aliased "c" (by decide +kernel))
  have fetch : [.word "FETCH"] ∈ SqlToken.optional (keyword "fetch") := .inl ⟨_, by decide, rfl⟩
  have conditions : IsQuery orderDeclarations [] (orderConditions.map outside ++ []) :=
    .others (by decide) .nil
  have joined : IsQuery [⟨"o", some "Order"⟩, ⟨"i", some "Item"⟩] [⟨"c", none⟩]
      (outside (.word "JOIN") :: ([.word "FETCH"].map outside ++
        (orderAssociation ++ (orderConditions.map outside ++ [])))) :=
    .clause (by decide) fetch (.last customer) (by decide) conditions
  have left : introduces (.word "LEFT") = false := by decide
  have start : ∀ token ∈ [.word "SELECT", .word "o", .punctuation '.', .word "code"],
      introduces token = false := by decide
  -- Put together from the end of the text to its start.
  exact .others start (.clause (by decide) (.inr rfl) entities (by decide) (.other left joined))

/-- A text that spells the query. -/
def orderText : String :=
  "SELECT o.code FROM Order o, Item AS i LEFT JOIN FETCH o.customer c " ++
    "WHERE O.total > 1 AND c.name = ? AND i.id = 2"

/-- Only references to the entity that has a mapping yield columns, in any letter case. -/
theorem columns_isQuery_order :
    columns [.ofDeclared "Order" "orders" [("total", "amount")]] orderText =
      [⟨"orders", "code"⟩, ⟨"orders", "amount"⟩] := by
  -- The text of the query is read as the tokens of the described one.
  have tokens : tokenize orderText.toList = orderQuery.map (·.token) := by decide +kernel
  have apart : (orderDeclarations.map fun declaration => lower declaration.given).Nodup := by
    decide +kernel
  rw [columns_isQuery isQuery_orderQuery apart (tokens ▸ spells_tokenize _)]
  decide +kernel

end Jpql

end IndexAudit
