import IndexAudit.Mapping
import IndexAudit.Sql.Token

/-!
Column references in the entity query language.

Its queries name entities and fields, so each reference to a field of an alias is looked up in the
mapping of the entity that the alias was declared for.
-/

namespace IndexAudit

/-- A column of a table that a query refers to. -/
structure ColumnReference where
  table : String
  column : String
deriving Repr, DecidableEq

namespace Jpql

/-- Words that may follow an entity name and are no alias. -/
def reserved : List String :=
  ["where", "join", "left", "right", "inner", "outer", "fetch", "on", "order", "group", "by",
    "having", "set", "and", "or", "not", "as", "with", "select", "from", "union", "limit",
    "offset", "in", "member", "of", "is", "like", "between", "escape", "asc", "desc", "when",
    "then", "else", "end", "case", "exists", "all", "any", "some", "update", "delete",
    "distinct", "new", "treat", "key", "value", "entry", "size", "index"]

/--
The aliases in scope, each with the entity it stands for, latest first.

Aliases are in lower case; one of an association stands for no known entity.
-/
abbrev Aliases := List (String × Option String)

/-- A token, and whether it belongs to the path of an association that is joined. -/
structure PathToken where
  token : SqlToken
  inJoinPath : Bool
deriving Repr, DecidableEq

/-- The identifiers of a dotted path at the start of a token list, and what follows it. -/
def readPath (tokens : List SqlToken) : List String × List SqlToken :=
  match tokens with
  | [] => ([], [])
  | token :: rest =>
    match token.ident? with
    | none => ([], tokens)
    | some name =>
      match rest with
      | .punctuation '.' :: after =>
        let following := readPath after
        (name :: following.1, following.2)
      | _ => ([name], rest)
termination_by tokens.length

/-- What follows a path is no longer than what it begins. -/
theorem readPath_length (tokens : List SqlToken) :
    (readPath tokens).2.length ≤ tokens.length := by
  -- A name and a dot are taken at a time, and at last a name or nothing.
  fun_induction readPath tokens with
  | case1 => exact Nat.le_refl _
  | case2 => exact Nat.le_refl _
  | case3 token name named after following ih =>
    change (readPath after).2.length ≤ _
    simp only [List.length_cons]
    omega
  | case4 => exact Nat.le_succ _

/-- A path that has a segment takes a token up. -/
theorem readPath_length_lt {tokens : List SqlToken} (named : (readPath tokens).1 ≠ []) :
    (readPath tokens).2.length < tokens.length := by
  -- Only a name leads to a segment, and the name itself is taken.
  unfold readPath at named ⊢
  split
  · exact absurd rfl named
  · rename_i token rest
    split
    · rename_i none
      simp [none] at named
    · split
      · rename_i after
        have shorter := readPath_length after
        simp only [List.length_cons]
        omega
      · simp

/-- The alias at the start of a token list, in lower case, and what follows it. -/
def readAlias (words : List String) (tokens : List SqlToken) : Option String × List SqlToken :=
  let named := SqlToken.skip "as" tokens
  match named with
  | [] => (none, named)
  | token :: rest =>
    match token.ident? with
    | none => (none, named)
    | some name => if words.contains (lower name) then (none, named) else (some (lower name), rest)

/-- What follows an alias is no longer than what it begins. -/
theorem readAlias_length (words : List String) (tokens : List SqlToken) :
    (readAlias words tokens).2.length ≤ tokens.length := by
  -- The word may be skipped, and then an alias takes one more token.
  have skipped := SqlToken.skip_length "as" tokens
  unfold readAlias
  simp only
  split
  · exact skipped
  · rename_i token rest start
    rw [start, List.length_cons] at skipped
    split
    · rw [start]
      exact skipped
    · split
      · rw [start]
        exact skipped
      · exact Nat.le_of_succ_le skipped

/-- Whether a keyword introduces declarations of aliases. -/
def introduces (token : SqlToken) : Bool :=
  token.isOneOf ["from", "join", "update"]

/-- The first tokens of a list, up to where another one that ends it begins. -/
def upTo (tokens rest : List SqlToken) : List SqlToken :=
  tokens.take (tokens.length - rest.length)

/--
The aliases that a token list declares, and its tokens with the joined paths told from the rest.

`declaring` says that a declaration is due: behind its keyword, or behind a comma between two.
A path that begins with an alias is an association, and its own alias stands for no known entity.
-/
def declare (declaring : Bool) (aliases : Aliases) (tokens : List SqlToken) :
    Aliases × List PathToken :=
  if declaring then
    let path := readPath tokens
    match found : path.1 with
    -- No name comes, so nothing is declared here and the token is read like any other.
    | [] => declare false aliases tokens
    | head :: more =>
      have shorter : path.2.length < tokens.length := readPath_length_lt (by simp [path, found])
      -- A path through an alias that is known leads along an association, not to an entity.
      let association := !more.isEmpty && (aliases.lookup (lower head)).isSome
      let named := readAlias reserved path.2
      have notLonger : named.2.length ≤ path.2.length := readAlias_length _ _
      let entity := if association then none else (head :: more).getLast?
      let aliases := match named.1 with
        | some name => (name, entity) :: aliases
        | none => aliases
      let front := (upTo tokens path.2).map (⟨·, association⟩) ++
        (upTo path.2 named.2).map (⟨·, false⟩)
      match rest : named.2 with
      | .punctuation ',' :: after =>
        have : after.length < tokens.length := by
          simp only [rest, List.length_cons] at notLonger
          omega
        let following := declare true aliases after
        (following.1, front ++ ⟨.punctuation ',', false⟩ :: following.2)
      | after =>
        have : after.length < tokens.length := by
          rw [rest] at notLonger
          omega
        let following := declare false aliases after
        (following.1, front ++ following.2)
  else
    match tokens with
    | [] => (aliases, [])
    | token :: rest =>
      if introduces token then
        let after := SqlToken.skip "fetch" rest
        have : (SqlToken.skip "fetch" rest).length ≤ rest.length := SqlToken.skip_length _ _
        let following := declare true aliases after
        (following.1, (token :: upTo rest after).map (⟨·, false⟩) ++ following.2)
      else
        let following := declare false aliases rest
        (following.1, ⟨token, false⟩ :: following.2)
termination_by (tokens.length, declaring.toNat)

/--
The columns that the field references of a token list stand for.

Only the head of a path counts, so `afterDot` says whether a dot came right before.
-/
def references (mappings : Mappings) (aliases : Aliases) (afterDot : Bool) :
    List PathToken → List ColumnReference
  | [] => []
  | first :: rest =>
    let here : Option ColumnReference := do
      let field ← match rest with
        | dot :: field :: _ => if dot.token = .punctuation '.' then field.token.ident? else none
        | _ => none
      let name ← first.token.ident?
      -- Later segments of a path, and the path of a join, are no references of their own.
      if first.inJoinPath || afterDot then none
      else
        let entity ← (← aliases.lookup (lower name))
        let mapping ← mappings.find entity
        some ⟨mapping.tableName, mapping.resolve field⟩
    here.toList ++ references mappings aliases (first.token == .punctuation '.') rest

/-- The columns that a query refers to through the aliases it declares, in the order of the text. -/
def columns (mappings : Mappings) (query : String) : List ColumnReference :=
  let declared := declare false [] (SqlToken.ofString query)
  references mappings declared.1 false declared.2

end Jpql

end IndexAudit
