import IndexAudit.Proofs.Sql.Script

/-!
Comments in SQL texts say nothing.

A comment that the tokenizer comes to may be taken out of a text, if a line break is left in its
place. The search for defining words in front of the tokenizer sees comments too, but a text that it
passes over defines nothing anyway.
-/

namespace IndexAudit

namespace SqlToken

/-- The tokenizer, set on a text, comes to stand in front of the rest of it. -/
inductive Reaches (rest : List Char) : List Char → Prop
  | here : Reaches rest rest
  | on {c : Char} {more : List Char} (later : Reaches rest (read c more).2) :
      Reaches rest (c :: more)

/-- The tokenizer, set on a text, comes to a comment between two parts of it. -/
structure SkipsComment (before comment after : List Char) : Prop where
  reached : Reaches (comment ++ after) (before ++ (comment ++ after))
  isComment : IsComment comment after

/-- A literal, a quoted identifier or a block comment that the end of a text leaves open. -/
inductive IsOpen : List Char → Prop
  | string {inside : List Char} : IsOpen ('\'' :: doubled inside)
  | quoted {quote : Char} {inside : List Char} (mark : quote = '"' ∨ quote = '\x60')
      (apart : quote ∉ inside) : IsOpen (quote :: inside)
  | comment {body : List Char} (inside : ¬ ['*', '/'] <:+: body) : IsOpen ('/' :: '*' :: body)

/-- What white space is not: it goes on with no token. -/
theorem isBlank_ends {w : Char} (white : isBlank w = true) :
    continuesWord w = false ∧ (w.isAlphanum || w = '.') = false ∧ w.isDigit = false ∧ w ≠ '\'' ∧
      ∀ c, ¬ joins c w := by
  -- There are few enough white-space characters to look at each of them.
  have apart := isBlank_imp (p := fun w => !continuesWord w && !(w.isAlphanum || w = '.') &&
    !w.isDigit && w != '\'' && pairOperators.all (·.2 != w) && w != '-' && w != '*') white
    (by decide +kernel)
  have noWord := startsWord_of_isBlank white
  simp only [Bool.and_eq_true, Bool.not_eq_true', bne_iff_ne, List.all_eq_true] at apart
  obtain ⟨⟨⟨⟨⟨⟨noPart, noNumber⟩, noDigit⟩, noQuote⟩, noPair⟩, noDash⟩, noStar⟩ := apart
  refine ⟨noPart, noNumber, noDigit, noQuote, fun c joined => ?_⟩
  rcases joined with pair | ⟨-, dash⟩ | ⟨-, star⟩ | ⟨-, starts⟩ | ⟨-, digit⟩
  · exact noPair _ pair rfl
  · exact noDash dash
  · exact noStar star
  · simp [noWord] at starts
  · simp [noDigit] at digit

/-- What a text begins with, another one begins with too, unless that begins with white space. -/
def MayFollow (rest other : List Char) : Prop :=
  other.head? = rest.head? ∨ ∃ w ∈ other.head?, isBlank w = true

/-- What holds of white space, and of what a text begins with, holds of what may follow instead. -/
theorem MayFollow.forall_head? {rest other : List Char} (follows : MayFollow rest other)
    {P : Char → Prop} (atBlank : ∀ w, isBlank w = true → P w) (ends : ∀ d ∈ rest.head?, P d) :
    ∀ d ∈ other.head?, P d := by
  intro d first
  -- What follows begins as the rest, or with white space.
  rcases follows with same | ⟨w, isFirst, white⟩
  · exact ends d (same ▸ first)
  · obtain rfl := Option.mem_unique first isFirst
    exact atBlank d white

/-- A token that ends in front of a text ends too in front of one that may follow instead. -/
theorem Writes.follow {token : SqlToken} {chars rest other : List Char}
    (closed : rest = [] → ¬ IsOpen chars) (follows : MayFollow rest other)
    (written : Writes token chars rest) : Writes token chars other := by
  -- No token goes on with white space, and only the end of a text leaves one open.
  cases written with
  | word starts parts ends =>
    exact .word starts parts (follows.forall_head? (fun _ white => (isBlank_ends white).1) ends)
  | quoted mark apart => exact .quoted mark apart
  | openQuoted mark apart => exact absurd (.quoted mark apart) (closed rfl)
  | number digit parts ends =>
    exact .number digit parts (follows.forall_head? (fun _ white => (isBlank_ends white).2.1) ends)
  | string ends =>
    refine .string fun quote => ?_
    have noQuote := follows.forall_head? (fun _ white => (isBlank_ends white).2.2.2.1)
      (fun d first same => ends (same ▸ first))
    exact noQuote _ quote rfl
  | openString => exact absurd .string (closed rfl)
  | named starts parts ends =>
    exact .named starts parts (follows.forall_head? (fun _ white => (isBlank_ends white).1) ends)
  | positional parts ends =>
    exact .positional parts (follows.forall_head? (fun _ white => (isBlank_ends white).2.2.1) ends)
  | numbered digit parts ends =>
    exact .numbered digit parts
      (follows.forall_head? (fun _ white => (isBlank_ends white).2.2.1) ends)
  | punctuation listed => exact .punctuation listed
  | pair listed => exact .pair listed
  | sign sign ends =>
    exact .sign sign (follows.forall_head? (fun _ white => (isBlank_ends white).2.2.2.2 _) ends)

section LineBreak

variable {before rest after chars : List Char}

/-- A line break may come in place of any text. -/
theorem mayFollow_lineBreak : MayFollow (before ++ rest) (before ++ '\n' :: after) := by
  -- With nothing in front the line break is white space, and otherwise the first character stays.
  cases before with
  | nil => exact .inr ⟨'\n', rfl, by decide⟩
  | cons c before => exact .inl rfl

/-- A comment that ends in front of a text ends there too if a line break comes in its place. -/
theorem IsComment.lineBreak (closed : before ++ rest = [] → ¬ IsOpen chars)
    (isComment : IsComment chars (before ++ rest)) : IsComment chars (before ++ '\n' :: after) := by
  generalize behind : before ++ rest = text at closed isComment
  -- A line comment ends at any line break, and a closed block is read to its own end.
  cases isComment with
  | line inLine ends =>
    refine .line inLine ?_
    cases before with
    | nil => simp
    | cons c before => simpa [← behind] using ends
  | block inside => exact .block inside
  | openBlock inside => exact absurd (.comment inside) (closed rfl)

/-- What is read in one step is read as well if a line break comes behind it. -/
theorem ReadsAs.lineBreak {token? : Option SqlToken} (closed : before ++ rest = [] → ¬ IsOpen chars)
    (step : ReadsAs token? chars (before ++ rest)) :
    ReadsAs token? chars (before ++ '\n' :: after) := by
  -- White space stands by itself, and comments and tokens may be followed by a line break.
  cases step with
  | blank white => exact .blank white
  | comment isComment => exact .comment (isComment.lineBreak closed)
  | token written => exact .token (written.follow closed mayFollow_lineBreak)

end LineBreak

/-- What is read in one step comes in front of the tokens of what follows. -/
theorem tokenize_readsAs {token? : Option SqlToken} {chars rest : List Char}
    (step : ReadsAs token? chars rest) :
    tokenize (chars ++ rest) = token?.toList ++ tokenize rest :=
  -- The step is spelled in front of what spells the rest, and spelling decides the tokens.
  tokenize_of_spells (spells_readsAs step (spells_tokenize rest))

/-- White space in front of a text is no part of its tokens. -/
theorem tokenize_blank {c : Char} (white : isBlank c = true) (rest : List Char) :
    tokenize (c :: rest) = tokenize rest :=
  -- White space is a step without a token.
  @tokenize_readsAs _ [c] _ (.blank white)

/--
The tokens in front of a place that the tokenizer comes to do not hang on what stands there.

A line break may come in its place, since no token goes on with one.
-/
theorem tokenize_reaches {rest text : List Char} (reached : Reaches rest text)
    (filled : rest ≠ []) :
    ∃ before tokens, text = before ++ rest ∧ tokenize text = tokens ++ tokenize rest ∧
      ∀ after, tokenize (before ++ '\n' :: after) = tokens ++ tokenize ('\n' :: after) := by
  -- The induction follows the tokenizer up to the place, one step at a time.
  induction reached with
  | here => exact ⟨[], [], rfl, rfl, fun after => rfl⟩
  | @on c more _ ih =>
    obtain ⟨before, tokens, same, found, broken⟩ := ih
    obtain ⟨chars, whole, step⟩ := readsAs_read c more
    rw [same] at whole step
    refine ⟨chars ++ before, (read c more).1.toList ++ tokens, ?_, ?_, fun after => ?_⟩
    · rw [whole, List.append_assoc]
    · rw [whole, tokenize_readsAs step, ← same, found, List.append_assoc]
    · have goes : before ++ rest = [] → ¬ IsOpen chars := fun empty =>
        absurd empty (List.append_ne_nil_of_right_ne_nil before filled)
      rw [List.append_assoc, tokenize_readsAs (step.lineBreak goes), broken, List.append_assoc]

/-- Nor are several of its characters. -/
theorem tokenize_blanks {gap : List Char} (white : ∀ w ∈ gap, isBlank w = true) (rest : List Char) :
    tokenize (gap ++ rest) = tokenize rest := by
  induction gap with
  | nil => rfl
  | cons w gap ih =>
    -- One blank is passed at a time.
    obtain ⟨here, later⟩ := List.forall_mem_cons.mp white
    rw [List.cons_append, tokenize_blank here, ih later]

/-- A step in front of a text is followed by white space as well, which is no part of the tokens. -/
theorem ReadsAs.tokenize_gap {token? : Option SqlToken} {chars gap rest : List Char}
    (step : ReadsAs token? chars rest) (filled : rest ≠ []) (white : ∀ w ∈ gap, isBlank w = true) :
    tokenize (chars ++ (gap ++ rest)) = tokenize (chars ++ rest) := by
  have follows : MayFollow rest (gap ++ rest) := by
    cases gap with
    | nil => exact .inl rfl
    | cons w gap => exact .inr ⟨w, rfl, white w List.mem_cons_self⟩
  -- As long as the step is the same, the white space is read by itself behind it.
  have again (other : ReadsAs token? chars (gap ++ rest)) :
      tokenize (chars ++ (gap ++ rest)) = tokenize (chars ++ rest) := by
    rw [tokenize_readsAs other, tokenize_readsAs step, tokenize_blanks white]
  cases step with
  | blank blank => exact again (.blank blank)
  | token written =>
    exact again (.token (written.follow (fun empty => absurd empty filled) follows))
  | comment isComment =>
    cases isComment with
    | block inside => exact again (.comment (.block inside))
    | openBlock inside => exact absurd rfl filled
    | @line body _ inLine ends =>
      -- A comment to the end of its line takes white space on that line with it.
      have whole := @List.takeWhile_append_dropWhile _ (· != '\n') gap
      have longer : IsComment ('-' :: '-' :: (body ++ gap.takeWhile (· != '\n')))
          (gap.dropWhile (· != '\n') ++ rest) := by
        refine .line ?_ fun d first => ?_
        · rw [List.mem_append, not_or]
          exact ⟨inLine, fun member => by simpa using List.mem_takeWhile_imp member⟩
        · cases later : gap.dropWhile (· != '\n') with
          | nil => exact ends d (by simpa [later] using first)
          | cons e behind =>
            rw [later, List.cons_append] at first
            obtain rfl := Option.some.inj first
            have stops := head?_dropWhile gap e (by rw [later]; rfl)
            exact bne_eq_false_iff_eq.mp stops
      have blank : ∀ w ∈ gap.dropWhile (· != '\n'), isBlank w = true := fun w member =>
        white w ((List.dropWhile_suffix _).mem member)
      have split : '-' :: '-' :: body ++ (gap ++ rest) =
          '-' :: '-' :: (body ++ gap.takeWhile (· != '\n')) ++
            (gap.dropWhile (· != '\n') ++ rest) := by
        simp only [List.cons_append, List.append_assoc]
        rw [← List.append_assoc (gap.takeWhile _), whole]
      rw [split, tokenize_readsAs (.comment longer), tokenize_blanks blank,
        tokenize_readsAs (.comment (.line inLine ends))]

/-- Of what stands behind a step, only the first character matters to it. -/
theorem ReadsAs.cons {token? : Option SqlToken} {chars rest : List Char} {d : Char}
    (step : ReadsAs token? chars (d :: rest)) (other : List Char) :
    ReadsAs token? chars (d :: other) := by
  -- A line comment ends at the character behind it, and a block ends by itself.
  cases step with
  | blank white => exact .blank white
  | token written =>
    have follows : MayFollow (d :: rest) (d :: other) := .inl rfl
    exact .token (written.follow (fun empty => absurd empty (List.cons_ne_nil d rest)) follows)
  | comment isComment =>
    cases isComment with
    | line inLine ends => exact .comment (.line inLine ends)
    | block inside => exact .comment (.block inside)

/-- White space at a place that the tokenizer comes to is no part of the tokens. -/
theorem tokenize_gap {rest text gap : List Char} (reached : Reaches rest text) (filled : rest ≠ [])
    (white : ∀ w ∈ gap, isBlank w = true) :
    ∃ before, text = before ++ rest ∧ tokenize (before ++ (gap ++ rest)) = tokenize text := by
  -- The induction follows the tokenizer up to the place, one step at a time.
  induction reached with
  | here => exact ⟨[], rfl, tokenize_blanks white rest⟩
  | @on c more _ ih =>
    obtain ⟨before, same, spaced⟩ := ih
    obtain ⟨chars, whole, step⟩ := readsAs_read c more
    rw [same] at whole step
    refine ⟨chars ++ before, by rw [whole, List.append_assoc], ?_⟩
    rw [whole, List.append_assoc]
    cases before with
    | nil => exact step.tokenize_gap filled white
    | cons d before =>
      rw [same] at spaced
      have spacedStep : ReadsAs (read c more).1 chars (d :: before ++ (gap ++ rest)) := step.cons _
      rw [tokenize_readsAs spacedStep, tokenize_readsAs step, spaced]

/-- The tokens of a text stay the same if a line break is left in place of a comment. -/
theorem tokenize_comment {before comment after : List Char}
    (skipped : SkipsComment before comment after) :
    tokenize (before ++ '\n' :: after) = tokenize (before ++ (comment ++ after)) := by
  -- What stands in front is read as it is, and the comment and the line break both say nothing.
  have filled : comment ++ after ≠ [] := by
    cases skipped.isComment <;> simp
  obtain ⟨front, tokens, same, found, broken⟩ := tokenize_reaches skipped.reached filled
  obtain rfl : before = front := List.append_cancel_right same
  rw [broken, found, tokenize_blank (by decide), tokenize_readsAs (.comment skipped.isComment),
    Option.toList_none, List.nil_append]

end SqlToken

namespace IndexStatement

open SqlToken

/-- A text in which no defining word is found has no token that is one. -/
theorem not_isKeyword_of_mayDefine {text : List Char} (passed : mayDefine text = false)
    {token : SqlToken} (member : token ∈ tokenize text) :
    token.isKeyword "create" = false ∧ token.isKeyword "alter" = false := by
  rw [mayDefine, Bool.or_eq_false_iff] at passed
  -- A token that is such a word has it in its text, where it would be found.
  have spelled := spells_tokenize text
  constructor
  · by_contra found
    have inside := infix_of_isKeyword spelled member (by simpa using found)
    exact absurd (splitAtText?_isSome_iff.mpr inside) (by simpa using passed.1)
  · by_contra found
    have inside := infix_of_isKeyword spelled member (by simpa using found)
    exact absurd (splitAtText?_isSome_iff.mpr inside) (by simpa using passed.2)

/-- What is in a part of a list is in the list, put together from its parts again. -/
theorem mem_intercalate {α : Type} {separator part : List α} {parts : List (List α)} {a : α}
    (isPart : part ∈ parts) (member : a ∈ part) : a ∈ separator.intercalate parts := by
  induction parts with
  | nil => nomatch isPart
  | cons first parts ih =>
    cases parts with
    | nil => simpa [List.mem_singleton.mp isPart] using member
    | cons second parts =>
      rw [List.intercalate_cons_of_ne_nil (by simp)]
      -- It is in the first part, or in one of the others that are put behind it.
      rcases List.mem_cons.mp isPart with rfl | later
      · simp [member]
      · simp [ih later]

/-- The tokens of a statement are among those that are divided into statements. -/
theorem mem_of_mem_statements {tokens statement : List SqlToken} {token : SqlToken}
    (isPart : statement ∈ statements tokens) (member : token ∈ statement) : token ∈ tokens := by
  -- Put together again, the statements and their semicolons are all tokens.
  have isPart : statement ∈ tokens.splitOn (.punctuation ';') := List.mem_of_mem_filter isPart
  have joined : [SqlToken.punctuation ';'].intercalate (tokens.splitOn (.punctuation ';')) =
      tokens := List.intercalate_splitOn _
  rw [← joined]
  exact mem_intercalate isPart member

/-- The search for defining words leaves out no text that defines an index. -/
theorem scan_eq (text : List Char) (file : String) :
    scan text file = (statements (tokenize text)).flatMap fun statement =>
      (definitions statement).flatMap (·.indexedColumns file) := by
  unfold scan
  split
  · rfl
  · rename_i passed
    symm
    rw [List.flatMap_eq_nil_iff]
    intro statement isPart
    -- The first token of a statement is none of the words that a definition begins with.
    have first : ∀ token ∈ statement.head?, token.isKeyword "create" = false ∧
        token.isKeyword "alter" = false := fun token isFirst =>
      not_isKeyword_of_mayDefine (by simpa using passed)
        (mem_of_mem_statements isPart (List.mem_of_head? isFirst))
    cases statement with
    | nil => rfl
    | cons token rest =>
      obtain ⟨noCreate, noAlter⟩ := first token rfl
      simp [definitions, noCreate, noAlter]

/-- White space at a place that the tokenizer comes to says nothing of indexes. -/
theorem scan_gap {before gap rest : List Char} (reached : Reaches rest (before ++ rest))
    (filled : rest ≠ []) (white : ∀ w ∈ gap, isBlank w = true) (file : String) :
    scan (before ++ (gap ++ rest)) file = scan (before ++ rest) file := by
  -- The white space is passed between two tokens, so the tokens are the same.
  obtain ⟨front, same, spaced⟩ := tokenize_gap reached filled white
  obtain rfl : before = front := List.append_cancel_right same
  rw [scan_eq, scan_eq, spaced]

/-- The indexes that a text defines stay the same if a line break is left in place of a comment. -/
theorem scan_comment {before comment after : List Char}
    (skipped : SkipsComment before comment after) (file : String) :
    scan (before ++ '\n' :: after) file = scan (before ++ (comment ++ after)) file := by
  rw [scan_eq, scan_eq, tokenize_comment skipped]

end IndexStatement

end IndexAudit
