import IndexAudit.Proofs.Sql.Phrase
import IndexAudit.Query.Jpql

/-!
Declarations of aliases in queries over entities.

A declaration names an entity, or an association by a path over an alias declared before it.
A query is told apart into its declarations and the tokens around them, and every token of the
path of an association is marked as such.
-/

namespace IndexAudit

/-- The end of a list that is cut off in front does not end in another element than the list. -/
theorem getLast?_ne_of_suffix {α : Type} {tail list : List α} {last : α} (ends : tail <:+ list)
    (apart : list.getLast? ≠ some last) : tail.getLast? ≠ some last := by
  obtain ⟨front, rfl⟩ := ends
  -- The last element of the end is that of the list.
  intro found
  exact apart (by simp [found])

namespace Jpql

open SqlToken
open scoped Computability

/-! Paths, and aliases, which may stand behind a word of their own. -/

/-- A name that no dot follows is a path by itself. -/
theorem readPath_single {token : SqlToken} {name : String} {rest : List SqlToken}
    (named : token.ident? = some name) (ends : rest.head? ≠ some (.punctuation '.')) :
    readPath (token :: rest) = ([name], rest) := by
  -- The path would go on behind a dot only.
  rw [readPath]
  simp only [named]
  split
  · simp at ends
  · rfl

/-- A name that a dot follows is the front of a path. -/
theorem readPath_dot {token : SqlToken} {name : String} (named : token.ident? = some name)
    (rest : List SqlToken) :
    readPath (token :: .punctuation '.' :: rest) =
      (name :: (readPath rest).1, (readPath rest).2) := by
  -- The dot is passed, and the rest read as a path again.
  rw [readPath]
  simp only [named]

/-- Where nothing is named, no path begins. -/
theorem readPath_nameless {tokens : List SqlToken}
    (nameless : ∀ token ∈ tokens.head?, token.ident? = none) : readPath tokens = ([], tokens) := by
  -- A path begins with a name, if there is a token at all.
  cases tokens with
  | nil => rw [readPath]
  | cons token rest =>
    rw [readPath]
    simp only [nameless token rfl]

/-- What may follow a declaration without an alias. -/
structure IsNoAlias (words : List String) (rest : List SqlToken) : Prop where
  noWord : startsWith "as" rest = false
  noName : ∀ token ∈ rest.head?, ∀ name ∈ token.ident?, lower name ∈ words

/-- An alias is read with or without the word for it. -/
theorem readAlias_named {words : List String} {separator rest : List SqlToken} {token : SqlToken}
    {name : String} (optionally : separator ∈ SqlToken.optional (keyword "as"))
    (named : token.ident? = some name) (apart : token.isKeyword "as" = false)
    (free : lower name ∉ words) :
    readAlias words (separator ++ token :: rest) = (some (lower name), rest) := by
  -- With the word or without it, the name comes next.
  have skipped : skip "as" (separator ++ token :: rest) = token :: rest :=
    skip_optional optionally apart
  simp [readAlias, skipped, named, free]

/-- No alias is read where a word stands that is none. -/
theorem readAlias_none {words : List String} {separator rest : List SqlToken}
    (optionally : separator ∈ SqlToken.optional (keyword "as")) (ends : IsNoAlias words rest) :
    readAlias words (separator ++ rest) = (none, rest) := by
  have skipped : skip "as" (separator ++ rest) = rest := skip_optional optionally ends.noWord
  rw [readAlias, skipped]
  cases rest with
  | nil => rfl
  | cons token rest =>
    cases named : token.ident? with
    | none => simp [named]
    | some name =>
      -- Here a name comes next, but one of those that are no alias.
      have listed : lower name ∈ words := ends.noName token rfl name named
      simp [named, listed]

/-- A path ends in front of what no dot begins. -/
theorem readPath_append {tokens rest : List SqlToken} (filled : tokens ≠ [])
    (ends : tokens.getLast? ≠ some (.punctuation '.'))
    (noDot : rest.head? ≠ some (.punctuation '.')) :
    readPath (tokens ++ rest) = ((readPath tokens).1, (readPath tokens).2 ++ rest) := by
  fun_induction readPath tokens with
  | case1 => exact absurd rfl filled
  | case2 token more nameless => exact readPath_nameless (by simp [nameless])
  | case3 token name named after following ih =>
    -- The list does not end in the dot, so a segment of the path stands behind it.
    have later : after ≠ [] := by
      rintro rfl
      exact ends rfl
    have read := ih later (getLast?_ne_of_suffix ⟨[token, .punctuation '.'], rfl⟩ ends)
    rw [List.cons_append, List.cons_append, readPath_dot named, read]
  | case4 token more name named other =>
    have apart : (more ++ rest).head? ≠ some (.punctuation '.') := by
      cases more with
      | nil => exact noDot
      | cons next more =>
        rintro same
        exact other more (by rw [Option.some.inj same])
    rw [List.cons_append, readPath_single named apart]

/-- What follows a path ends as the path does. -/
theorem readPath_isSuffix (tokens : List SqlToken) : (readPath tokens).2 <:+ tokens := by
  -- What a path takes is the tokens at the front, a name and a dot at a time.
  fun_induction readPath tokens with
  | case1 => exact List.suffix_refl _
  | case2 => exact List.suffix_refl _
  | case3 token name named after following ih =>
    exact ih.trans ⟨[token, .punctuation '.'], rfl⟩
  | case4 token more => exact List.suffix_cons token more

/-- An alias ends in front of what is none and follows no word for one. -/
theorem readAlias_append {words : List String} {rest : List SqlToken}
    (noAlias : IsNoAlias words rest) (tokens : List SqlToken) :
    readAlias words (tokens ++ rest) =
      ((readAlias words tokens).1, (readAlias words tokens).2 ++ rest) := by
  have skipped : skip "as" (tokens ++ rest) = skip "as" tokens ++ rest := by
    cases tokens with
    | nil =>
      have noWord := noAlias.noWord
      simp [skip, noWord]
    | cons token tokens => by_cases found : token.isKeyword "as" <;> simp [skip, found]
  rw [readAlias, readAlias, skipped]
  -- An alias is the next name, unless that is a reserved one.
  cases skip "as" tokens with
  | nil =>
    cases rest with
    | nil => rfl
    | cons token rest =>
      cases named : token.ident? with
      | none => simp [named]
      | some name =>
        have listed : lower name ∈ words := noAlias.noName token rfl name named
        simp [named, listed]
  | cons token more =>
    cases named : token.ident? with
    | none => simp [named]
    | some name => by_cases listed : lower name ∈ words <;> simp [named, listed]

/-- What follows an alias ends as the alias does. -/
theorem readAlias_isSuffix (words : List String) (tokens : List SqlToken) :
    (readAlias words tokens).2 <:+ tokens := by
  -- At most the word for an alias and the alias itself are taken off.
  have skipped : skip "as" tokens <:+ tokens := by
    rw [skip]
    split
    · exact List.drop_suffix _ _
    · exact List.suffix_refl _
  rw [readAlias]
  split
  · exact skipped
  · rename_i token more found
    rw [found] at skipped
    split
    · rwa [found]
    · split
      · rwa [found]
      · exact (List.suffix_cons _ _).trans skipped

/-! Queries told apart into their declarations and other tokens. -/

/-- An alias, with the entity that it stands for unless it stands for an association. -/
structure Declaration where
  given : String
  entity : Option String
deriving Repr, DecidableEq

/-- A token that belongs to no path of an association. -/
def outside (token : SqlToken) : PathToken :=
  ⟨token, false⟩

/-- A token in the path of an association. -/
def inside (token : SqlToken) : PathToken :=
  ⟨token, true⟩

/-- Marking tokens as outside of paths keeps them. -/
theorem map_token_outside (tokens : List SqlToken) :
    (tokens.map outside).map (·.token) = tokens := by
  simp [outside, Function.comp_def]

/-- Marking tokens as inside a path keeps them. -/
theorem map_token_inside (tokens : List SqlToken) :
    (tokens.map inside).map (·.token) = tokens := by
  simp [inside, Function.comp_def]

/-- The tokens of a dotted path with these segments. -/
inductive IsPath : List String → List SqlToken → Prop
  | last {token : SqlToken} {name : String} (named : token.ident? = some name) :
      IsPath [name] [token]
  | segment {token : SqlToken} {name : String} {names : List String} {rest : List SqlToken}
      (named : token.ident? = some name) (later : IsPath names rest) :
      IsPath (name :: names) (token :: .punctuation '.' :: rest)

/-- A name that may be an alias. -/
def free (given : String) : Language SqlToken :=
  {tokens | lower given ∉ reserved ∧ tokens ∈ identifier given}

/-- An alias behind what it is declared for, with or without the word between the two. -/
def aliasing (given : String) : Language SqlToken :=
  SqlToken.optional (keyword "as") * free given

/-- One declaration, behind those of other aliases. -/
inductive Declares (known : List Declaration) : Declaration → List PathToken → Prop
  | entity {token : SqlToken} {name given : String} {tokens : List SqlToken}
      (named : token.ident? = some name) (noFetch : token.isKeyword "fetch" = false)
      (aliased : tokens ∈ aliasing given) :
      Declares known ⟨given, some name⟩ (outside token :: tokens.map outside)
  | association {other : Declaration} {head given : String} {names : List String}
      {path tokens : List SqlToken} (isPath : IsPath (head :: names) path) (deeper : names ≠ [])
      (isKnown : other ∈ known) (same : lower other.given = lower head)
      (aliased : tokens ∈ aliasing given) :
      Declares known ⟨given, none⟩ (path.map inside ++ tokens.map outside)

/-- Declarations with commas between them. -/
inductive DeclaresAll : List Declaration → List Declaration → List PathToken → Prop
  | last {known : List Declaration} {declaration : Declaration} {tokens : List PathToken}
      (declares : Declares known declaration tokens) : DeclaresAll known [declaration] tokens
  | comma {known declarations : List Declaration} {declaration : Declaration}
      {tokens later : List PathToken} (declares : Declares known declaration tokens)
      (others : DeclaresAll (known ++ [declaration]) declarations later) :
      DeclaresAll known (declaration :: declarations)
        (tokens ++ outside (.punctuation ',') :: later)

/-- A query in which each word that introduces declarations has some behind it. -/
inductive IsQuery : List Declaration → List Declaration → List PathToken → Prop
  | nil {known : List Declaration} : IsQuery known [] []
  | other {known declarations : List Declaration} {token : SqlToken} {rest : List PathToken}
      (plain : introduces token = false) (later : IsQuery known declarations rest) :
      IsQuery known declarations (outside token :: rest)
  | clause {known declarations others : List Declaration} {token : SqlToken}
      {fetch : List SqlToken} {tokens rest : List PathToken} (isStart : introduces token = true)
      (optionally : fetch ∈ SqlToken.optional (keyword "fetch"))
      (declares : DeclaresAll known declarations tokens)
      (ends : (rest.map (·.token)).head? ≠ some (.punctuation ','))
      (later : IsQuery (known ++ declarations) others rest) :
      IsQuery known (declarations ++ others)
        (outside token :: (fetch.map outside ++ (tokens ++ rest)))

/-- The aliases in scope behind some declarations, the latest first. -/
def inScope (declarations : List Declaration) : Aliases :=
  (declarations.map fun declaration => (lower declaration.given, declaration.entity)).reverse

/-- The aliases in scope behind one more declaration. -/
theorem inScope_append (declarations : List Declaration) (declaration : Declaration) :
    inScope (declarations ++ [declaration]) =
      (lower declaration.given, declaration.entity) :: inScope declarations := by
  simp [inScope]

/-- An alias that was declared is found in scope. -/
theorem lookup_inScope {declarations : List Declaration} {declaration : Declaration}
    (member : declaration ∈ declarations) :
    ((inScope declarations).lookup (lower declaration.given)).isSome = true := by
  -- The entry of the declaration has this key, so some entry is found.
  refine List.lookup_isSome_iff.mpr
    ⟨(lower declaration.given, declaration.entity), ?_, beq_self_eq_true _⟩
  exact List.mem_reverse.mpr (List.mem_map.mpr ⟨declaration, member, rfl⟩)

/-- What a longer list has in front of its end. -/
theorem upTo_append (front rest : List SqlToken) : upTo (front ++ rest) rest = front := by
  simp [upTo]

/-- A path is read up to where no dot follows. -/
theorem readPath_path {names : List String} {path rest : List SqlToken}
    (isPath : IsPath names path) (ends : rest.head? ≠ some (.punctuation '.')) :
    readPath (path ++ rest) = (names, rest) := by
  -- By induction on the path: a name with a dot in front of a path, or one by itself.
  induction isPath with
  | last named => exact readPath_single named ends
  | segment named _ ih =>
    rw [List.cons_append, List.cons_append, readPath_dot named, ih]

/-- No dot begins an alias with what is in front of it. -/
theorem head?_ne_of_aliasing {given : String} {tokens : List SqlToken}
    (aliased : tokens ∈ aliasing given) (rest : List SqlToken) :
    (tokens ++ rest).head? ≠ some (.punctuation '.') := by
  obtain ⟨separator, optionally, _, ⟨-, isName⟩, rfl⟩ := aliased
  obtain ⟨token, named, rfl⟩ := mem_identifier.mp isName
  -- First comes `AS` or the name, and a dot is neither.
  rcases mem_optional.mp optionally with ⟨word, found, rfl⟩ | rfl
  · intro same
    obtain rfl := Option.some.inj same
    simp [isKeyword] at found
  · intro same
    obtain rfl := Option.some.inj same
    contradiction

/-- An alias is read from where it is declared. -/
theorem readAlias_aliasing {given : String} {tokens : List SqlToken}
    (aliased : tokens ∈ aliasing given) (rest : List SqlToken) :
    readAlias reserved (tokens ++ rest) = (some (lower given), rest) := by
  obtain ⟨separator, optionally, _, ⟨unreserved, isName⟩, rfl⟩ := aliased
  obtain ⟨token, named, rfl⟩ := mem_identifier.mp isName
  -- The word in front of an alias is reserved, so the alias is not taken for it.
  have notAs : token.isKeyword "as" = false := by
    by_contra found
    obtain ⟨text, rfl, same⟩ := eq_word_of_isKeyword (by decide) (Bool.not_eq_false _ ▸ found)
    obtain rfl := Option.some.inj named
    exact unreserved (same ▸ (by decide))
  rw [List.append_assoc, List.singleton_append]
  exact readAlias_named optionally named notAs unreserved

section Declare

variable {aliases : Aliases} {head given : String} {names : List String}
  {path tokens : List SqlToken} {association : Bool}

/-- A declaration is read, and another one is due if a comma follows. -/
theorem declare_declaration (isPath : IsPath (head :: names) path)
    (aliased : tokens ∈ aliasing given)
    (known : (!names.isEmpty && (aliases.lookup (lower head)).isSome) = association)
    (rest : List SqlToken) :
    declare true aliases (path ++ (tokens ++ rest)) =
      let entity := if association then none else (head :: names).getLast?
      let front := path.map (⟨·, association⟩) ++ tokens.map outside
      match rest with
      | .punctuation ',' :: after =>
        let following := declare true ((lower given, entity) :: aliases) after
        (following.1, front ++ outside (.punctuation ',') :: following.2)
      | after =>
        let following := declare false ((lower given, entity) :: aliases) after
        (following.1, front ++ following.2) := by
  have read := readPath_path isPath (head?_ne_of_aliasing aliased rest)
  have named := readAlias_aliasing aliased rest
  have behind : (readAlias reserved (readPath (path ++ (tokens ++ rest))).2).2 = rest := by
    rw [read, named]
  rw [declare.eq_def]
  simp only [if_true]
  -- The path and the alias are what was written, so only the comma behind makes a difference.
  split
  · rename_i found
    rw [read] at found
    contradiction
  · rename_i first more found
    rw [read] at found
    obtain ⟨rfl, rfl⟩ := List.cons.inj found
    split
    · rename_i after isAfter
      rw [behind] at isAfter
      subst isAfter
      simp only [read, named, upTo_append, known]
      rfl
    · rename_i noComma
      simp only [read, named, upTo_append, known] at noComma ⊢
      generalize (if association = true then none else (head :: names).getLast?) = entity
      split
      · rename_i after
        exact absurd rfl (noComma after)
      · rfl

end Declare

/-- Outside of declarations a token that introduces none is handed through. -/
theorem declare_other {aliases : Aliases} {token : SqlToken} (plain : introduces token = false)
    (rest : List SqlToken) :
    declare false aliases (token :: rest) =
      ((declare false aliases rest).1, outside token :: (declare false aliases rest).2) := by
  -- The token is neither due nor an introduction, so the last branch is taken.
  rw [declare.eq_def]
  simp [plain, outside]

/-- Nothing is left to declare at the end. -/
theorem declare_nil (aliases : Aliases) : declare false aliases [] = (aliases, []) := by
  rw [declare.eq_def]
  simp

/-- Behind a word that introduces declarations, one is due. -/
theorem declare_introduces {aliases : Aliases} {token : SqlToken} {fetch rest : List SqlToken}
    (isStart : introduces token = true) (optionally : fetch ∈ SqlToken.optional (keyword "fetch"))
    (apart : startsWith "fetch" rest = false) :
    declare false aliases (token :: (fetch ++ rest)) =
      let following := declare true aliases rest
      (following.1, outside token :: (fetch.map outside ++ following.2)) := by
  -- The word in between is skipped, and kept with what stands outside.
  have skipped : skip "fetch" (fetch ++ rest) = rest := skip_optional optionally apart
  rw [declare.eq_def]
  simp only [Bool.false_eq_true, if_false, isStart, if_true, skipped, upTo_append]
  rfl

/-- The front of a path is a name, and the path is that name if nothing follows. -/
theorem IsPath.cases_eq {names : List String} {path : List SqlToken} (isPath : IsPath names path) :
    ∃ token rest, path = token :: rest ∧ token.ident? = names.head? := by
  -- Of a path of one segment or of several, the first token names the first segment.
  cases isPath with
  | last named => exact ⟨_, _, rfl, named⟩
  | segment named later => exact ⟨_, _, rfl, named⟩

/-- A declaration is read as its alias, and its tokens are marked as they are in the query. -/
theorem declare_declares {known : List Declaration} {declaration : Declaration}
    {tokens : List PathToken} (declares : Declares known declaration tokens)
    (rest : List SqlToken) :
    declare true (inScope known) (tokens.map (·.token) ++ rest) =
      match rest with
      | .punctuation ',' :: after =>
        let following := declare true (inScope (known ++ [declaration])) after
        (following.1, tokens ++ outside (.punctuation ',') :: following.2)
      | after =>
        let following := declare false (inScope (known ++ [declaration])) after
        (following.1, tokens ++ following.2) := by
  rw [inScope_append]
  -- An entity is named by itself, and an association by a path over a known alias.
  cases declares with
  | @entity token name given tokens named noFetch aliased =>
    have single : (!([] : List String).isEmpty &&
        ((inScope known).lookup (lower name)).isSome) = false := rfl
    have read := declare_declaration (.last named) aliased single rest
    rw [List.map_cons, map_token_outside]
    exact read
  | @association other head given names path tokens isPath deeper isKnown same aliased =>
    have isSome := lookup_inScope isKnown
    rw [same] at isSome
    have through : (!names.isEmpty && ((inScope known).lookup (lower head)).isSome) = true := by
      simp [isSome, deeper]
    have read := declare_declaration isPath aliased through rest
    rw [List.map_append, map_token_inside, map_token_outside, List.append_assoc]
    exact read

/-- Declarations with commas between them are read one after another. -/
theorem declare_declaresAll {known declarations : List Declaration} {tokens : List PathToken}
    (declares : DeclaresAll known declarations tokens) {rest : List SqlToken}
    (ends : rest.head? ≠ some (.punctuation ',')) :
    declare true (inScope known) (tokens.map (·.token) ++ rest) =
      let following := declare false (inScope (known ++ declarations)) rest
      (following.1, tokens ++ following.2) := by
  -- Each one is in scope for those behind its comma.
  induction declares with
  | last declares =>
    rw [declare_declares declares]
    split
    · simp at ends
    · rfl
  | comma declares _ ih =>
    rw [List.map_append, List.map_cons, List.append_assoc, List.cons_append,
      declare_declares declares]
    simp only [outside]
    rw [ih]
    simp

/-- No declaration begins with the word that may stand in front of it. -/
theorem DeclaresAll.startsWith_eq {known declarations : List Declaration} {tokens : List PathToken}
    (declares : DeclaresAll known declarations tokens)
    (free : ∀ declaration ∈ known, lower declaration.given ∉ reserved) (rest : List SqlToken) :
    startsWith "fetch" (tokens.map (·.token) ++ rest) = false := by
  have here : ∀ declaration marked, Declares known declaration marked → ∀ rest,
      startsWith "fetch" (marked.map (·.token) ++ rest) = false := by
    intro declaration marked declares rest
    cases declares with
    | entity named noFetch aliased => exact noFetch
    | association isPath deeper isKnown same aliased =>
      -- The word is reserved, so the alias that the path begins with is none of its spellings.
      obtain ⟨token, later, rfl, named⟩ := isPath.cases_eq
      change token.isKeyword "fetch" = false
      by_contra found
      obtain ⟨text, rfl, lowered⟩ :=
        eq_word_of_isKeyword (by decide) (Bool.not_eq_false _ ▸ found)
      obtain rfl := Option.some.inj named
      exact free _ isKnown (same ▸ lowered ▸ (by decide))
  cases declares with
  | last declares => exact here _ _ declares rest
  | comma declares others =>
    rw [List.map_append, List.append_assoc]
    exact here _ _ declares _

/-- Declared aliases are no reserved words. -/
theorem DeclaresAll.unreserved {known declarations : List Declaration} {tokens : List PathToken}
    (declares : DeclaresAll known declarations tokens) :
    ∀ declaration ∈ declarations, lower declaration.given ∉ reserved := by
  -- Either way an alias is given, and no reserved word can be one.
  have here : ∀ known declaration marked, Declares known declaration marked →
      lower declaration.given ∉ reserved := by
    intro known declaration marked declares
    cases declares with
    | entity _ _ aliased =>
      obtain ⟨_, -, _, ⟨unreserved, -⟩, -⟩ := aliased
      exact unreserved
    | association _ _ _ _ aliased =>
      obtain ⟨_, -, _, ⟨unreserved, -⟩, -⟩ := aliased
      exact unreserved
  induction declares with
  | last declares => simpa using here _ _ _ declares
  | comma declares _ ih => exact List.forall_mem_cons.mpr ⟨here _ _ _ declares, ih⟩

/-- A query declares its aliases, and its tokens are marked as they are in it. -/
theorem declare_isQuery {known declarations : List Declaration} {tokens : List PathToken}
    (isQuery : IsQuery known declarations tokens)
    (free : ∀ declaration ∈ known, lower declaration.given ∉ reserved) :
    declare false (inScope known) (tokens.map (·.token)) =
      (inScope (known ++ declarations), tokens) := by
  -- The declarations known so far grow from clause to clause, and no token changes its mark.
  induction isQuery with
  | nil => rw [List.map_nil, declare_nil, List.append_nil]
  | other plain _ ih =>
    rw [List.map_cons, outside, declare_other plain, ih free]
    rfl
  | @clause known declarations others token fetch tokens rest isStart optionally declares ends later
      ih =>
    have all : ∀ declaration ∈ known ++ declarations, lower declaration.given ∉ reserved :=
      List.forall_mem_append.mpr ⟨free, declares.unreserved⟩
    rw [List.map_cons, List.map_append, map_token_outside, List.map_append]
    simp only [outside]
    rw [declare_introduces isStart optionally (declares.startsWith_eq free _),
      declare_declaresAll declares ends, ih all]
    simp [outside]

end Jpql

end IndexAudit
