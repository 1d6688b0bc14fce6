import IndexAudit.Proofs.Query.DeclarationScan
import IndexAudit.Proofs.Query.Jpql

/-!
Which references of a query are reported.

A field of an alias is reported wherever it stands behind the declaration, except where the scan of
the query takes the path for that of another declaration: behind each word that introduces one,
be it in a clause of the query or among the arguments of a function.
-/

namespace IndexAudit

namespace Jpql

open SqlToken

namespace Scan

/-- Reading on begins where reading leaves off. -/
theorem read_append (scan : Scan) (before tokens : List SqlToken) :
    ∃ front, front.map (·.token) = before ∧
      (scan.read (before ++ tokens)).2 = front ++ ((scan.run before).read tokens).2 := by
  induction before generalizing scan with
  | nil => exact ⟨[], rfl, rfl⟩
  | cons token before ih =>
    -- The first token is marked, and its scan goes on with the others.
    obtain ⟨front, same, read⟩ := ih (scan.next token)
    refine ⟨⟨token, scan.marks token (before ++ tokens)⟩ :: front, by simp [same], ?_⟩
    rw [List.cons_append, read_cons]
    exact congrArg _ read

/-- The aliases that are read are those that are known behind all tokens. -/
theorem read_aliases (scan : Scan) (tokens : List SqlToken) :
    (scan.read tokens).1 = (scan.run tokens).aliases := by
  -- Reading runs along, and gives the aliases at the end.
  induction tokens generalizing scan with
  | nil => rfl
  | cons token tokens ih => exact ih (scan.next token)

/-- Reading keeps the tokens. -/
theorem read_tokens (scan : Scan) (tokens : List SqlToken) :
    (scan.read tokens).2.map (·.token) = tokens := by
  -- Each token is marked once, and none is added or left out.
  induction tokens generalizing scan with
  | nil => rfl
  | cons token tokens ih => exact congrArg (token :: ·) (ih (scan.next token))

/-- What the scan can be behind a token, by what the token is. -/
inductive Outcome (aliases : Aliases) (token : SqlToken) : Scan → Prop
  | pass : Outcome aliases token (pass aliases token)
  | due (separates : token.isKeyword "fetch" = true ∨ token = .punctuation ',') :
      Outcome aliases token ⟨.due, aliases⟩
  | segment (path : OpenPath) (named : token.ident? ≠ none) :
      Outcome aliases token ⟨.segment path, aliases⟩
  | dot (path : OpenPath) (isDot : token = .punctuation '.') :
      Outcome aliases token ⟨.dot path, aliases⟩
  | aliasing (entity : Option String) (isAs : token.isKeyword "as" = true) :
      Outcome aliases token ⟨.aliasing entity, aliases⟩
  | given {name : String} (entity : Option String) (named : token.ident? = some name)
      (free : lower name ∉ reserved) :
      Outcome aliases token ⟨.declared, (lower name, entity) :: aliases⟩

/-- Behind a declaration a comma separates it from another one, and any other token is passed. -/
theorem outcome_close (aliases : Aliases) (token : SqlToken) :
    Outcome aliases token (close aliases token) := by
  -- A comma makes another declaration due, and any other token is passed.
  rw [close]
  split
  · rename_i comma
    exact .due (.inr comma)
  · exact .pass

/-- Where an alias may stand, a token is one or stands behind the declaration. -/
theorem outcome_bind (aliases : Aliases) (entity : Option String) (token : SqlToken) :
    Outcome aliases token (bind aliases entity token) := by
  -- Without a name, or with a reserved one, the token stands behind the declaration.
  rw [bind]
  split
  · exact outcome_close aliases token
  · rename_i name named
    split
    · exact outcome_close aliases token
    · rename_i free
      exact .given entity named (by simpa using free)

/-- Where a declaration begins, a token is its first segment or is passed. -/
theorem outcome_begin (aliases : Aliases) (token : SqlToken) :
    Outcome aliases token (begin aliases token) := by
  -- A path begins with a name only.
  rw [begin]
  split
  · exact .pass
  · rename_i name named
    exact .segment _ (by simp [named])

/-- One more token has one of the outcomes. -/
theorem outcome_next (scan : Scan) (token : SqlToken) :
    Outcome scan.aliases token (scan.next token) := by
  obtain ⟨stage, aliases⟩ := scan
  -- One case for each stage: what the next token does depends on that alone.
  cases stage with
  | outside => exact .pass
  | introduced =>
    simp only [next]
    split
    · rename_i fetch
      exact .due (.inl fetch)
    · exact outcome_begin aliases token
  | due => exact outcome_begin aliases token
  | segment path =>
    simp only [next]
    split
    · rename_i isDot
      exact .dot path isDot
    split
    · rename_i isAs
      exact .aliasing path.entity isAs
    · exact outcome_bind aliases path.entity token
  | dot path =>
    simp only [next]
    split
    · exact outcome_close aliases token
    · rename_i name named
      exact .segment _ (by simp [named])
  | aliasing entity => exact outcome_bind aliases entity token
  | declared => exact outcome_close aliases token

/-- No alias that is known is a reserved word. -/
def Unreserved (scan : Scan) : Prop :=
  ∀ entry ∈ scan.aliases, entry.1 ∉ reserved

/-- One more token declares no reserved word. -/
theorem Unreserved.next {scan : Scan} (unreserved : scan.Unreserved) (token : SqlToken) :
    (scan.next token).Unreserved := by
  -- Of all outcomes one alone adds an alias, and that is none of the reserved words.
  have outcome := scan.outcome_next token
  generalize scan.next token = behind at outcome
  cases outcome with
  | given entity named free => exact List.forall_mem_cons.mpr ⟨free, unreserved⟩
  | _ => exact unreserved

/-- No query declares a reserved word. -/
theorem unreserved_run (tokens : List SqlToken) : (start.run tokens).Unreserved :=
  -- Nothing is declared at the start, and each token declares no reserved word.
  List.foldlRecOn tokens next (motive := Unreserved) (by simp [Unreserved, start])
    fun _ unreserved token _ => unreserved.next token

/-- The scan behind some tokens and one more. -/
theorem run_concat (scan : Scan) (tokens : List SqlToken) (token : SqlToken) :
    scan.run (tokens ++ [token]) = (scan.run tokens).next token := by
  simp [run]

/--
A declaration begins only behind a word that introduces one, the word that may follow that, or a
comma.
-/
theorem begins_run {before : List SqlToken} {head : SqlToken}
    (begins : (start.run before).begins head = true) :
    ∃ front last, before = front ++ [last] ∧
      (introduces last = true ∨ last.isKeyword "fetch" = true ∨ last = .punctuation ',') := by
  rcases List.eq_nil_or_concat before with rfl | ⟨front, last, rfl⟩
  · cases begins
  refine ⟨front, last, by simp, ?_⟩
  rw [List.concat_eq_append, run_concat] at begins
  -- Only the last token decides, through what it may do to the stage before it.
  have outcome := (start.run front).outcome_next last
  generalize (start.run front).next last = behind at outcome begins
  cases outcome with
  | pass =>
    left
    by_contra plain
    simp [Scan.begins, Scan.pass, plain] at begins
  | due separates => exact .inr separates
  | _ => cases begins

/-- No declaration goes on behind a bracket that opens. -/
theorem stage_next_open (scan : Scan) : (scan.next (.punctuation '(')).stage = .outside := by
  -- The bracket names nothing and separates nothing, so it can only be passed.
  have outcome := scan.outcome_next (.punctuation '(')
  generalize scan.next (.punctuation '(') = behind at outcome
  cases outcome with
  | pass => rfl
  | due separates => simp [isKeyword] at separates
  | segment path named => exact absurd rfl named
  | dot path isDot => simp at isDot
  | aliasing entity isAs => cases isAs
  | given entity named free => cases named

/-- Outside of declarations, words that introduce none leave it at that. -/
theorem stage_run_outside {scan : Scan} (outside : scan.stage = .outside) {words : List SqlToken}
    (plain : ∀ word ∈ words, introduces word = false) : (scan.run words).stage = .outside := by
  -- Each of the words is passed outside, and leaves the scan there.
  refine List.foldlRecOn words next (motive := fun scan => scan.stage = .outside) outside ?_
  intro scan outside word listed
  simp [next, outside, pass, plain word listed]

/-- Behind an introducing word among the arguments of a function, a declaration begins. -/
theorem begins_argument {front words : List SqlToken} {word head : SqlToken}
    (plain : ∀ word ∈ words, introduces word = false) (isStart : introduces word = true)
    (noFetch : head.isKeyword "fetch" = false) :
    (start.run (front ++ .punctuation '(' :: (words ++ [word]))).begins head = true := by
  -- The bracket takes the scan outside, the words leave it there, and the last one begins anew.
  have split : front ++ .punctuation '(' :: (words ++ [word]) =
      (front ++ [.punctuation '(']) ++ words ++ [word] := by simp
  have opened : (start.run (front ++ [.punctuation '('])).stage = .outside := by
    rw [run_concat]
    exact stage_next_open _
  have passed := stage_run_outside opened plain
  rw [split, run_concat, run, List.foldl_append]
  change (((start.run (front ++ [.punctuation '('])).run words).next word).begins head = true
  simp [next, passed, pass, isStart, begins, noFetch]

/-- A path is left at a dot only behind one. -/
theorem getLast?_of_dot {before : List SqlToken} {path : OpenPath}
    (isDot : (start.run before).stage = .dot path) :
    before.getLast? = some (.punctuation '.') := by
  rcases List.eq_nil_or_concat before with rfl | ⟨front, last, rfl⟩
  · cases isDot
  rw [List.concat_eq_append, run_concat] at isDot
  have outcome := (start.run front).outcome_next last
  generalize (start.run front).next last = behind at outcome isDot
  -- Of the outcomes only the dot itself leaves the path at one.
  cases outcome with
  | pass =>
    simp only [Scan.pass] at isDot
    split at isDot <;> cases isDot
  | dot path same => simp [same]
  | _ => cases isDot

/-- A reference is in the path of an association if a declaration begins with its alias. -/
theorem marks_head {before after : List SqlToken} {head field : SqlToken} {given name : String}
    (isAlias : head.ident? = some given) (isField : field.ident? = some name)
    (atHead : before.getLast? ≠ some (.punctuation '.')) :
    (start.run before).marks head (.punctuation '.' :: field :: after) =
      ((start.run before).begins head && (start.run before).knows head) := by
  have noDot : head ≠ .punctuation '.' := by
    rintro rfl
    cases isAlias
  rw [marks]
  split
  · rename_i path stage
    simp [begins, stage, noDot]
  -- Behind a dot the token would be a segment of the path in front of it.
  · rename_i path stage
    exact absurd (getLast?_of_dot stage) atHead
  · simp [continues, isField]

end Scan

/--
The column reported at a position of a query: that of the field of an alias that stands there.

There is none behind a dot, and none where a declaration begins with an alias that is known by then.
-/
def reportedAt? (mappings : Mappings) (tokens : List SqlToken) (position : Nat) :
    Option ColumnReference :=
  let before := tokens.take position
  match tokens.drop position with
  | head :: .punctuation '.' :: field :: _ =>
    let scan := Scan.start.run before
    if before.getLast? = some (.punctuation '.') ∨ (scan.begins head && scan.knows head) then none
    else do resolve? mappings (Scan.start.run tokens).aliases (← head.ident?, ← field.ident?)
  | _ => none

/-- What is reported at a position is told by the tokens around it. -/
theorem reportedAt?_eq (mappings : Mappings) (tokens : List SqlToken) {position : Nat}
    (within : position < tokens.length) :
    (referenceAt? (Scan.start.read tokens).2 position).bind
        (resolve? mappings (Scan.start.run tokens).aliases) =
      reportedAt? mappings tokens position := by
  obtain ⟨front, same, read⟩ :=
    Scan.start.read_append (tokens.take position) (tokens.drop position)
  rw [List.take_append_drop] at read
  have length : front.length = position := by
    have := congrArg List.length same
    simp at this
    omega
  have ends : endsInDot front =
      decide ((tokens.take position).getLast? = some (.punctuation '.')) := by
    rw [endsInDot, ← same, List.getLast?_map]
    cases front.getLast? with
    | none => simp
    | some last => simp [beq_eq_decide]
  rw [referenceAt?, reportedAt?, read, List.drop_left' length, List.take_left' length, ends]
  generalize tokens.take position = before
  -- A reference is made of three tokens, of which the second one is a dot.
  rcases tokens.drop position with - | ⟨head, - | ⟨dot, - | ⟨field, after⟩⟩⟩
  · rfl
  · rfl
  · simp [Scan.read]
  by_cases isDot : dot = .punctuation '.'
  · subst isDot
    simp only [Scan.read_cons]
    cases isAlias : head.ident? with
    | none => simp
    | some given =>
      cases isField : field.ident? with
      | none => simp
      | some name =>
        by_cases atHead : before.getLast? = some (.punctuation '.')
        · simp [atHead]
        · rw [Scan.marks_head isAlias isField atHead]
          by_cases association :
              ((Scan.start.run before).begins head && (Scan.start.run before).knows head) = true
          · simp [atHead, association]
          · simp [atHead, association]
  · simp [Scan.read_cons, isDot]

/-- The columns of a query are those reported at its positions, in the order of the text. -/
theorem columns_eq_reported (mappings : Mappings) (query : String) :
    columns mappings query = (List.range (SqlToken.ofString query).length).filterMap
      (reportedAt? mappings (SqlToken.ofString query)) := by
  have declared := Scan.declare_eq_read false [] (SqlToken.ofString query)
  have resolved := references_eq mappings (Scan.start.read (SqlToken.ofString query)).1 []
    (Scan.start.read (SqlToken.ofString query)).2
  have length := congrArg List.length (Scan.start.read_tokens (SqlToken.ofString query))
  rw [List.length_map] at length
  -- A position is where a reference is read, so the list of them is as long as that of tokens.
  rw [columns, declared, List.range_eq_range', ← length]
  refine resolved.trans ?_
  rw [Scan.read_aliases]
  refine List.filterMap_congr fun position listed => ?_
  refine reportedAt?_eq mappings _ ?_
  rw [← length]
  exact (List.mem_range'_1.mp listed).2.trans_eq (Nat.zero_add _)

/--
Each field of an alias in a query is reported as its column, at any place and any number of times,
unless a declaration begins with the alias there and the alias is known by then.

A declaration begins only behind a word that introduces one, behind the word that may follow that,
or behind a comma. It also begins behind such a word among the arguments of a function, with words
and literals in front or none, so a field that a function takes `FROM` its alias is not reported.
-/
theorem columns_occurrence {mappings : Mappings} {mapping : TableMapping} {query : String}
    {before after : List SqlToken} {head field : SqlToken} {given name entity : String}
    (read : SqlToken.ofString query = before ++ head :: .punctuation '.' :: field :: after)
    (isAlias : head.ident? = some given) (isField : field.ident? = some name)
    (atHead : before.getLast? ≠ some (.punctuation '.'))
    (declared : (declare false [] (SqlToken.ofString query)).1.lookup (lower given) =
      some (some entity))
    (mapped : mappings.find entity = some mapping) :
    columns mappings query = (List.range (SqlToken.ofString query).length).filterMap
        (reportedAt? mappings (SqlToken.ofString query)) ∧
      reportedAt? mappings (SqlToken.ofString query) before.length =
        (if (Scan.start.run before).begins head ∧ (Scan.start.run before).knows head then none
          else some ⟨mapping.tableName, mapping.resolve name⟩) ∧
      ((Scan.start.run before).begins head = true → ∃ front last, before = front ++ [last] ∧
        (introduces last = true ∨ last.isKeyword "fetch" = true ∨ last = .punctuation ',')) ∧
      ∀ front words word, before = front ++ .punctuation '(' :: (words ++ [word]) →
        (∀ word ∈ words, introduces word = false) → introduces word = true →
          (Scan.start.run before).begins head = true := by
  have aliases := congrArg Prod.fst (Scan.declare_eq_read false [] (SqlToken.ofString query))
  rw [aliases] at declared
  change (Scan.start.read _).1.lookup _ = _ at declared
  rw [Scan.read_aliases] at declared
  refine ⟨columns_eq_reported mappings query, ?_, Scan.begins_run, ?_⟩
  · rw [reportedAt?, read, List.drop_left, List.take_left, ← read]
    simp only [isAlias, isField, atHead, false_or, Bool.and_eq_true]
    split
    · rfl
    · simp [resolve?, declared, mapped]
  · rintro front words word rfl plain isStart
    refine Scan.begins_argument plain isStart ?_
    -- The word that may follow an introducing one is reserved, so it is no alias.
    by_contra found
    obtain ⟨text, rfl, same⟩ := eq_word_of_isKeyword (by decide) (Bool.not_eq_false _ ▸ found)
    obtain rfl := Option.some.inj isAlias
    obtain ⟨later, earlier, known, -⟩ := List.lookup_eq_some_iff.mp declared
    have free := Scan.unreserved_run (SqlToken.ofString query) (lower text, some entity)
      (by rw [known]; simp)
    exact free (same ▸ (by decide : "fetch" ∈ reserved))

/-- A mapping whose field has a column of another name. -/
def userMapping : TableMapping :=
  .ofDeclared "User" "users" [("email", "email_address")]

/-- The tokens of a query up to the operand of a function. -/
def trimTokens : List SqlToken :=
  [.word "SELECT", .word "u", .word "FROM", .word "User", .word "u", .word "WHERE",
    .word "TRIM", .punctuation '(', .word "LEADING", .word "FROM"]

/-- The tokens of the query up to a comparison of the same field. -/
def comparedTokens : List SqlToken :=
  trimTokens ++ [.word "u", .punctuation '.', .word "email", .punctuation ')', .operator "=",
    .parameter, .word "AND"]

/-- A field is reported from a comparison, and not from behind the word that a function takes. -/
theorem columns_occurrence_trim :
    let query := "SELECT u FROM User u WHERE TRIM(LEADING FROM u.email) = ? AND u.email = ?"
    reportedAt? [userMapping] (SqlToken.ofString query) trimTokens.length = none ∧
      reportedAt? [userMapping] (SqlToken.ofString query) comparedTokens.length =
        some ⟨"users", "email_address"⟩ := by
  intro query
  have read : SqlToken.ofString query = comparedTokens ++
      [.word "u", .punctuation '.', .word "email", .operator "=", .parameter] := by
    decide +kernel
  have declared : (declare false [] (SqlToken.ofString query)).1.lookup (lower "u") =
      some (some "User") := by
    rw [Scan.declare_eq_read, read]
    decide +kernel
  have mapped : Mappings.find [userMapping] "User" = some userMapping := by decide +kernel
  constructor
  case left =>
    -- Between the brackets of the function, `FROM` begins a declaration for the scan.
    have inFunction : SqlToken.ofString query = trimTokens ++ .word "u" :: .punctuation '.' ::
        .word "email" :: (comparedTokens.drop 13 ++
          [.word "u", .punctuation '.', .word "email", .operator "=", .parameter]) := read
    obtain ⟨-, operand, -, argument⟩ :=
      columns_occurrence inFunction rfl rfl (by decide) declared mapped
    have begins := argument (trimTokens.take 7) [.word "LEADING"] (.word "FROM") rfl (by decide)
      (by decide)
    rw [operand, if_pos ⟨begins, by decide +kernel⟩]
  case right =>
    obtain ⟨-, compared, -⟩ := columns_occurrence read rfl rfl (by decide) declared mapped
    rw [compared, if_neg (by decide +kernel)]
    decide +kernel

end Jpql

end IndexAudit
