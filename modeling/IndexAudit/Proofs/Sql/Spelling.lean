import IndexAudit.Proofs.Text.Blank
import IndexAudit.Sql.Token
import Mathlib.Tactic.IntervalCases

/-!
How texts spell tokens, with white space and comments between them wherever one likes.

The tokens of a text are exactly those that it spells.
-/

namespace IndexAudit

namespace SqlToken

/-- A text with each of its single quotes doubled. -/
def doubled (text : List Char) : List Char :=
  text.flatMap fun c => if c = '\'' then ['\'', '\''] else [c]

/-- Whether two characters next to each other are one operator, or begin a comment or parameter. -/
def joins (c d : Char) : Prop :=
  (c, d) ∈ pairOperators ∨ (c = '-' ∧ d = '-') ∨ (c = '/' ∧ d = '*') ∨
    (c = ':' ∧ startsWord d = true) ∨ (c = '$' ∧ d.isDigit = true)

/-- Whether a character can be an operator of its own: it is none that begins anything else. -/
structure IsSign (c : Char) : Prop where
  visible : isBlank c = false
  noQuote : c ≠ '\'' ∧ c ≠ '"' ∧ c ≠ '\x60'
  noDigit : c.isDigit = false
  noWord : startsWord c = false
  noMark : c ≠ '?'
  noPunctuation : c ∉ ['(', ')', ',', '.', ';']

/--
The ways to write a token in front of the rest of a text, which does not go on with the token.

Literals and quoted identifiers may be left open at the end of the text.
-/
inductive Writes : SqlToken → List Char → List Char → Prop
  | word {c : Char} {more rest : List Char} (starts : startsWord c = true)
      (parts : ∀ d ∈ more, continuesWord d = true)
      (ends : ∀ d ∈ rest.head?, continuesWord d = false) :
      Writes (.word (String.ofList (c :: more))) (c :: more) rest
  | quoted {quote : Char} {inside rest : List Char} (mark : quote = '"' ∨ quote = '\x60')
      (apart : quote ∉ inside) :
      Writes (.quoted (String.ofList inside)) (quote :: (inside ++ [quote])) rest
  | openQuoted {quote : Char} {inside : List Char} (mark : quote = '"' ∨ quote = '\x60')
      (apart : quote ∉ inside) :
      Writes (.quoted (String.ofList inside)) (quote :: inside) []
  | number {c : Char} {more rest : List Char} (digit : c.isDigit = true)
      (parts : ∀ d ∈ more, (d.isAlphanum || d = '.') = true)
      (ends : ∀ d ∈ rest.head?, (d.isAlphanum || d = '.') = false) :
      Writes .number (c :: more) rest
  | string {inside rest : List Char} (ends : rest.head? ≠ some '\'') :
      Writes .string ('\'' :: (doubled inside ++ ['\''])) rest
  | openString {inside : List Char} : Writes .string ('\'' :: doubled inside) []
  | named {c : Char} {more rest : List Char} (starts : startsWord c = true)
      (parts : ∀ d ∈ more, continuesWord d = true)
      (ends : ∀ d ∈ rest.head?, continuesWord d = false) :
      Writes .parameter (':' :: c :: more) rest
  | positional {digits rest : List Char} (parts : ∀ d ∈ digits, d.isDigit = true)
      (ends : ∀ d ∈ rest.head?, d.isDigit = false) :
      Writes .parameter ('?' :: digits) rest
  | numbered {c : Char} {digits rest : List Char} (digit : c.isDigit = true)
      (parts : ∀ d ∈ digits, d.isDigit = true) (ends : ∀ d ∈ rest.head?, d.isDigit = false) :
      Writes .parameter ('$' :: c :: digits) rest
  | punctuation {c : Char} {rest : List Char} (listed : c ∈ ['(', ')', ',', '.', ';']) :
      Writes (.punctuation c) [c] rest
  | pair {c d : Char} {rest : List Char} (listed : (c, d) ∈ pairOperators) :
      Writes (.operator (String.ofList [c, d])) [c, d] rest
  | sign {c : Char} {rest : List Char} (sign : IsSign c)
      (ends : ∀ d ∈ rest.head?, ¬ joins c d) :
      Writes (.operator (String.ofList [c])) [c] rest

/-- The texts that spell a list of tokens. -/
inductive Spells : List SqlToken → List Char → Prop
  | done : Spells [] []
  | blank {c : Char} {tokens : List SqlToken} {rest : List Char} (white : isBlank c = true)
      (later : Spells tokens rest) : Spells tokens (c :: rest)
  | lineComment {body rest : List Char} {tokens : List SqlToken} (inLine : '\n' ∉ body)
      (ends : ∀ d ∈ rest.head?, d = '\n') (later : Spells tokens rest) :
      Spells tokens ('-' :: '-' :: (body ++ rest))
  | blockComment {body rest : List Char} {tokens : List SqlToken}
      (inside : ¬ ['*', '/'] <:+: body) (later : Spells tokens rest) :
      Spells tokens ('/' :: '*' :: (body ++ '*' :: '/' :: rest))
  | openComment {body : List Char} (inside : ¬ ['*', '/'] <:+: body) :
      Spells [] ('/' :: '*' :: body)
  | token {token : SqlToken} {chars rest : List Char} {tokens : List SqlToken}
      (written : Writes token chars rest) (later : Spells tokens rest) :
      Spells (token :: tokens) (chars ++ rest)

/-- An identifier does not begin with white space. -/
theorem startsWord_of_isBlank {c : Char} (white : isBlank c = true) : startsWord c = false := by
  -- There are few enough white-space characters to look at each of them.
  simpa using isBlank_imp (p := (!startsWord ·)) white (by decide +kernel)

/-- What holds of each of the ten digits holds of a digit. -/
theorem isDigit_imp {p : Char → Bool} {c : Char} (digit : c.isDigit = true)
    (each : ∀ d ∈ "0123456789".toList, p d = true) : p c = true := by
  -- A digit is one of ten codes, and each is looked at.
  have named : c = Char.ofNat c.toNat := (Char.ofNat_toNat c).symm
  simp only [Char.isDigit, Bool.and_eq_true, decide_eq_true_eq, UInt32.le_iff_toNat_le] at digit
  have low : 48 ≤ c.toNat := digit.1
  have high : c.toNat ≤ 57 := digit.2
  rw [named]
  generalize c.toNat = code at low high
  interval_cases code <;> exact each _ (by decide)

/-- A digit is no white space. -/
theorem isBlank_of_isDigit {c : Char} (digit : c.isDigit = true) : isBlank c = false := by
  -- There are ten digits, and each is looked at.
  simpa using isDigit_imp (p := (!isBlank ·)) digit (by decide)

/-- What follows a character of a string that is no quote follows the string. -/
theorem afterString_cons {c : Char} (noQuote : c ≠ '\'') (rest : List Char) :
    afterString (c :: rest) = afterString rest := by
  -- Only a quote ends the string, so the last equation applies.
  rw [afterString.eq_def]
  split <;> simp_all

/-- A single quote ends a string unless another one follows. -/
theorem afterString_quote {rest : List Char} (ends : rest.head? ≠ some '\'') :
    afterString ('\'' :: rest) = rest := by
  -- The string goes on only behind two quotes.
  cases rest with
  | nil => rfl
  | cons d rest =>
    rw [List.head?_cons, ne_eq, Option.some.injEq] at ends
    simp [afterString, ends]

/-- Doubled quotes do not end a string. -/
theorem afterString_doubled (inside rest : List Char) :
    afterString (doubled inside ++ rest) = afterString rest := by
  induction inside with
  | nil => rfl
  | cons c inside ih =>
    -- A quote is doubled and passed in two, and any other character is passed by itself.
    by_cases quote : c = '\''
    · simpa [doubled, quote, afterString] using ih
    · simpa [doubled, quote, afterString_cons quote] using ih

/-- A string begins with doubled quotes and ends at a single one, or at the end of the text. -/
theorem afterString_cases (text : List Char) :
    (∃ inside, text = doubled inside ++ '\'' :: afterString text ∧
      (afterString text).head? ≠ some '\'') ∨
    ∃ inside, text = doubled inside ∧ afterString text = [] := by
  -- The cases are the ways in which the reader goes on.
  fun_induction afterString text with
  | case1 rest ih =>
    rcases ih with ⟨inside, same, ends⟩ | ⟨inside, same, ends⟩
    · exact .inl ⟨'\'' :: inside, by simpa [doubled] using same, ends⟩
    · exact .inr ⟨'\'' :: inside, by simpa [doubled] using same, ends⟩
  | case2 rest single =>
    refine .inl ⟨[], rfl, fun doubledQuote => ?_⟩
    obtain ⟨more, rfl⟩ := List.head?_eq_some_iff.mp doubledQuote
    exact single more rfl
  | case3 c rest _ noQuote ih =>
    have other : c ≠ '\'' := fun same => noQuote same
    rcases ih with ⟨inside, same, ends⟩ | ⟨inside, same, ends⟩
    · exact .inl ⟨c :: inside, by simpa [doubled, other] using same, ends⟩
    · exact .inr ⟨c :: inside, by simpa [doubled, other] using same, ends⟩
  | case4 => exact .inr ⟨[], rfl, rfl⟩

/-- The end of a block comment is written at the front of a text, or in what comes behind. -/
theorem closes_cons {c : Char} {text : List Char} :
    ['*', '/'] <:+: c :: text ↔ (c = '*' ∧ text.head? = some '/') ∨ ['*', '/'] <:+: text := by
  -- The end is at the front just if the first two characters are its own.
  rw [List.infix_cons_iff, List.cons_prefix_cons]
  cases text with
  | nil => simp
  | cons d text => simp [List.cons_prefix_cons, eq_comm]

/-- A block comment goes on behind a character that does not begin its end. -/
theorem afterComment_cons {c : Char} {rest : List Char}
    (goes : ¬ (c = '*' ∧ rest.head? = some '/')) :
    afterComment (c :: rest) = afterComment rest := by
  -- The first equation does not apply, so the second one does.
  rw [afterComment.eq_def]
  split <;> simp_all

/-- A block comment ends where its end is written first. -/
theorem afterComment_append {body : List Char} (inside : ¬ ['*', '/'] <:+: body)
    (rest : List Char) : afterComment (body ++ '*' :: '/' :: rest) = rest := by
  induction body with
  | nil => rfl
  | cons c body ih =>
    obtain ⟨here, later⟩ := not_or.mp (mt closes_cons.mpr inside)
    rw [List.cons_append, afterComment_cons, ih later]
    -- Behind the last character of the body comes the star of the end.
    cases body with
    | nil => simp
    | cons d body => exact here

/-- A comment without an end runs to the end of the text. -/
theorem afterComment_open {body : List Char} (inside : ¬ ['*', '/'] <:+: body) :
    afterComment body = [] := by
  induction body with
  | nil => rfl
  | cons c body ih =>
    -- The end is neither here nor further on, so the comment runs through the character.
    obtain ⟨here, later⟩ := not_or.mp (mt closes_cons.mpr inside)
    rw [afterComment_cons here, ih later]

/-- A block comment runs to its first end, or to the end of the text. -/
theorem afterComment_cases (text : List Char) :
    (∃ body, text = body ++ '*' :: '/' :: afterComment text ∧ ¬ ['*', '/'] <:+: body) ∨
      (afterComment text = [] ∧ ¬ ['*', '/'] <:+: text) := by
  induction text with
  | nil => exact .inr ⟨rfl, by simp⟩
  | cons c text ih =>
    by_cases here : c = '*' ∧ text.head? = some '/'
    · obtain ⟨rfl, slash⟩ := here
      obtain ⟨rest, rfl⟩ := List.head?_eq_some_iff.mp slash
      exact .inl ⟨[], rfl, by simp⟩
    · rw [afterComment_cons here]
      rcases ih with ⟨body, same, inside⟩ | ⟨ends, inside⟩
      · -- The body goes on with what the text behind it begins with.
        refine .inl ⟨c :: body, by rw [List.cons_append, ← same], ?_⟩
        refine mt closes_cons.mp (not_or.mpr ⟨fun found => here ⟨found.1, ?_⟩, inside⟩)
        obtain ⟨more, rfl⟩ := List.head?_eq_some_iff.mp found.2
        rw [same]
        rfl
      · exact .inr ⟨ends, mt closes_cons.mp (not_or.mpr ⟨here, inside⟩)⟩

/-- Where no comment begins, a visible character begins a token. -/
theorem read_visible {c : Char} {rest : List Char} (visible : isBlank c = false)
    (noLine : ¬ (c = '-' ∧ rest.head? = some '-')) (noBlock : ¬ (c = '/' ∧ rest.head? = some '*')) :
    read c rest = (some (readToken c rest).1, (readToken c rest).2) := by
  simp [read, visible, noLine, noBlock]

/-- A character that begins no literal and no identifier begins a symbol. -/
theorem readToken_symbol {c : Char} (rest : List Char)
    (noQuote : c ≠ '\'' ∧ c ≠ '"' ∧ c ≠ '\x60') (noDigit : c.isDigit = false)
    (noWord : startsWord c = false) : readToken c rest = readSymbol c rest := by
  simp [readToken, noQuote, noDigit, noWord]

/-- A character that begins an identifier begins nothing else. -/
theorem ne_of_startsWord {c d : Char} (starts : startsWord c = true)
    (other : startsWord d = false) : c ≠ d := by
  -- One character would both begin an identifier and not.
  rintro rfl
  exact absurd starts (by simp [other])

/-- A character that begins an identifier is no white space. -/
theorem isBlank_of_startsWord {c : Char} (starts : startsWord c = true) : isBlank c = false := by
  -- White space begins no identifier.
  by_contra white
  exact absurd starts (by simp [startsWord_of_isBlank (by simpa using white)])

/-- An identifier does not begin with a digit. -/
theorem startsWord_of_isDigit {c : Char} (digit : c.isDigit = true) : startsWord c = false := by
  -- There are ten digits, and each is looked at.
  simpa using isDigit_imp (p := (!startsWord ·)) digit (by decide)

/-- An identifier may go on with each character that it may begin with. -/
theorem continuesWord_of_startsWord {c : Char} (starts : startsWord c = true) :
    continuesWord c = true := by
  -- What may begin it is a part of what may go on with it.
  simp only [startsWord, continuesWord, isAlphanumeric, Bool.or_eq_true] at starts ⊢
  tauto

/-- A word is read up to where it ends. -/
theorem read_word {c : Char} {more rest : List Char} (starts : startsWord c = true)
    (parts : ∀ d ∈ more, continuesWord d = true)
    (ends : ∀ d ∈ rest.head?, continuesWord d = false) :
    read c (more ++ rest) = (some (.word (String.ofList (c :: more))), rest) := by
  -- The character that starts a word begins none of the other kinds, in the order they are tried.
  have other : ∀ d, startsWord d = false → c ≠ d := fun d => ne_of_startsWord starts
  have noDigit : c.isDigit = false := by
    by_contra digit
    exact absurd starts (by simp [startsWord_of_isDigit (by simpa using digit)])
  rw [read_visible (isBlank_of_startsWord starts) (fun dash => other '-' (by decide) dash.1)
    (fun slash => other '/' (by decide) slash.1)]
  simp [readToken, other '\'' (by decide), other '"' (by decide), other '\x60' (by decide),
    noDigit, starts, takeWhile_stop parts ends, dropWhile_stop parts ends]

/-- A number is read up to where it ends. -/
theorem read_number {c : Char} {more rest : List Char} (digit : c.isDigit = true)
    (parts : ∀ d ∈ more, (d.isAlphanum || d = '.') = true)
    (ends : ∀ d ∈ rest.head?, (d.isAlphanum || d = '.') = false) :
    read c (more ++ rest) = (some .number, rest) := by
  -- A digit begins none of the other kinds, in the order they are tried.
  have other : ∀ d, d.isDigit = false → c ≠ d := by
    rintro d none rfl
    exact absurd digit (by simp [none])
  rw [read_visible (isBlank_of_isDigit digit) (fun dash => other '-' (by decide) dash.1)
    (fun slash => other '/' (by decide) slash.1)]
  simp [readToken, other '\'' (by decide), other '"' (by decide), other '\x60' (by decide),
    digit, dropWhile_stop parts ends]

/-- A quoted identifier is read up to its closing quote, which may be missing at the end. -/
theorem read_quoted {quote : Char} {inside rest : List Char}
    (mark : quote = '"' ∨ quote = '\x60') (apart : quote ∉ inside)
    (ends : rest.head? = some quote ∨ rest = []) :
    read quote (inside ++ rest) = (some (.quoted (String.ofList inside)), rest.drop 1) := by
  have parts : ∀ d ∈ inside, (d != quote) = true := by
    rintro d member
    simpa using fun same : d = quote => apart (same ▸ member)
  have stop : ∀ d ∈ rest.head?, (d != quote) = false := by
    rcases ends with closed | rfl
    · simp [closed]
    · simp
  have token : readToken quote (inside ++ rest)
      = (.quoted (String.ofList inside), rest.drop 1) := by
    rcases mark with rfl | rfl <;>
      simp [readToken, takeWhile_stop parts stop, dropWhile_stop parts stop]
  -- A quote is neither white space nor the start of a comment.
  have visible : read quote (inside ++ rest) = (some (readToken quote (inside ++ rest)).1,
      (readToken quote (inside ++ rest)).2) := by
    rcases mark with rfl | rfl <;> exact read_visible (by decide) (by simp) (by simp)
  rw [visible, token]

/-- A character that makes an operator of its own is read as one. -/
theorem read_sign {c : Char} {rest : List Char} (sign : IsSign c)
    (ends : ∀ d ∈ rest.head?, ¬ joins c d) :
    read c rest = (some (.operator (String.ofList [c])), rest) := by
  have noPunctuation := sign.noPunctuation
  simp only [List.mem_cons, List.not_mem_nil, or_false] at noPunctuation
  -- Two dashes, or a slash and a star, would begin a comment.
  rw [read_visible sign.visible (fun dash => ends '-' dash.2 (.inr (.inl ⟨dash.1, rfl⟩)))
      (fun slash => ends '*' slash.2 (.inr (.inr (.inl ⟨slash.1, rfl⟩)))),
    readToken_symbol _ sign.noQuote sign.noDigit sign.noWord]
  cases rest with
  | nil => simp [readSymbol, readOperator, sign.noMark, noPunctuation]
  | cons d rest =>
    have apart := ends d rfl
    simp only [joins, not_or] at apart
    obtain ⟨noPair, -, -, noName, noNumber⟩ := apart
    simp [readSymbol, readOperator, sign.noMark, noPunctuation, noPair, noName, noNumber]

/-- A token is read from where it is written, up to the rest of the text. -/
theorem read_written {token : SqlToken} {c : Char} {more rest : List Char}
    (written : Writes token (c :: more) rest) : read c (more ++ rest) = (some token, rest) := by
  generalize same : c :: more = chars at written
  -- One case for each kind of token: each is read up to where its characters end.
  cases written with
  | word starts parts ends =>
    obtain ⟨rfl, rfl⟩ := List.cons.inj same
    exact read_word starts parts ends
  | quoted mark apart =>
    obtain ⟨rfl, rfl⟩ := List.cons.inj same
    rw [List.append_assoc, read_quoted mark apart (.inl rfl)]
    rfl
  | openQuoted mark apart =>
    obtain ⟨rfl, rfl⟩ := List.cons.inj same
    exact read_quoted mark apart (.inr rfl)
  | number digit parts ends =>
    obtain ⟨rfl, rfl⟩ := List.cons.inj same
    exact read_number digit parts ends
  | string ends =>
    obtain ⟨rfl, rfl⟩ := List.cons.inj same
    rw [read_visible (by decide) (by simp) (by simp)]
    simp [readToken, afterString_doubled, afterString_quote ends]
  | @openString inside =>
    obtain ⟨rfl, rfl⟩ := List.cons.inj same
    have atEnd := afterString_doubled inside []
    rw [read_visible (by decide) (by simp) (by simp)]
    simp only [List.append_nil, afterString] at atEnd
    simp [readToken, atEnd]
  | named starts parts ends =>
    obtain ⟨rfl, rfl⟩ := List.cons.inj same
    have goes := dropWhile_stop
      (List.forall_mem_cons.mpr ⟨continuesWord_of_startsWord starts, parts⟩) ends
    rw [read_visible (by decide) (by simp) (by simp),
      readToken_symbol _ (by decide) (by decide) (by decide), readSymbol,
      if_pos ⟨rfl, by simp [starts]⟩, goes]
  | positional parts ends =>
    obtain ⟨rfl, rfl⟩ := List.cons.inj same
    rw [read_visible (by decide) (by simp) (by simp),
      readToken_symbol _ (by decide) (by decide) (by decide)]
    simp [readSymbol, dropWhile_stop parts ends]
  | numbered digit parts ends =>
    obtain ⟨rfl, rfl⟩ := List.cons.inj same
    have goes := dropWhile_stop (List.forall_mem_cons.mpr ⟨digit, parts⟩) ends
    rw [read_visible (by decide) (by simp) (by simp),
      readToken_symbol _ (by decide) (by decide) (by decide), readSymbol, if_neg (by simp),
      if_pos (.inr ⟨rfl, by simp [digit]⟩), goes]
  | punctuation listed =>
    obtain ⟨rfl, rfl⟩ := List.cons.inj same
    simp only [List.mem_cons, List.not_mem_nil, or_false] at listed
    rcases listed with rfl | rfl | rfl | rfl | rfl <;>
      rw [read_visible (by decide) (by simp) (by simp),
        readToken_symbol _ (by decide) (by decide) (by decide)] <;>
      simp [readSymbol]
  | @pair c d rest listed =>
    obtain ⟨rfl, rfl⟩ := List.cons.inj same
    simp only [pairOperators, List.mem_cons, Prod.mk.injEq, List.not_mem_nil, or_false] at listed
    rcases listed with ⟨rfl, rfl⟩ | ⟨rfl, rfl⟩ | ⟨rfl, rfl⟩ | ⟨rfl, rfl⟩ | ⟨rfl, rfl⟩ |
        ⟨rfl, rfl⟩ | ⟨rfl, rfl⟩ <;>
      rw [read_visible (by decide) (by simp) (by simp),
        readToken_symbol _ (by decide) (by decide) (by decide)] <;>
      simp [readSymbol, readOperator, pairOperators, show startsWord ':' = false by decide]
  | sign sign ends =>
    obtain ⟨rfl, rfl⟩ := List.cons.inj same
    exact read_sign sign ends

/-- A quoted identifier is written where one is read. -/
theorem writes_quoted {quote : Char} (mark : quote = '"' ∨ quote = '\x60') (rest : List Char) :
    ∃ chars, quote :: rest = chars ++ (rest.dropWhile (· != quote)).drop 1 ∧
      Writes (.quoted (String.ofList (rest.takeWhile (· != quote)))) chars
        ((rest.dropWhile (· != quote)).drop 1) := by
  have apart : quote ∉ rest.takeWhile (· != quote) := fun member => by
    simpa using List.mem_takeWhile_imp member
  have whole := List.takeWhile_append_dropWhile (p := (· != quote)) (l := rest)
  have stop := head?_dropWhile (p := (· != quote)) rest
  cases left : rest.dropWhile (· != quote) with
  | nil =>
    -- The closing quote is missing.
    rw [left, List.append_nil] at whole
    exact ⟨quote :: rest.takeWhile (· != quote), by simp [whole], .openQuoted mark apart⟩
  | cons d after =>
    rw [left] at whole stop
    obtain rfl : d = quote := by simpa using stop d rfl
    exact ⟨d :: (rest.takeWhile (· != d) ++ [d]), by simp [whole], .quoted mark apart⟩

/-- A string literal is written where one is read. -/
theorem writes_string (rest : List Char) :
    ∃ chars, '\'' :: rest = chars ++ afterString rest ∧
      Writes .string chars (afterString rest) := by
  -- The string either ends in a quote or runs to the end of the text.
  rcases afterString_cases rest with ⟨inside, same, ends⟩ | ⟨inside, same, ends⟩
  · exact ⟨'\'' :: (doubled inside ++ ['\'']), by simpa using same, .string ends⟩
  · rw [ends]
    exact ⟨'\'' :: doubled inside, by simp [same], .openString⟩

/-- An operator is written where one is read. -/
theorem writes_operator {c : Char} {rest : List Char} (sign : IsSign c)
    (apart : ∀ d ∈ rest.head?, joins c d → (c, d) ∈ pairOperators) :
    ∃ chars, c :: rest = chars ++ (readOperator c rest).2 ∧
      Writes (readOperator c rest).1 chars (readOperator c rest).2 := by
  -- Two signs are read only as one of the pairs, and otherwise the first is read by itself.
  cases rest with
  | nil => exact ⟨[c], rfl, .sign sign (by simp [readOperator])⟩
  | cons d after =>
    by_cases pair : (c, d) ∈ pairOperators
    · rw [readOperator, if_pos pair]
      exact ⟨[c, d], rfl, .pair pair⟩
    · rw [readOperator, if_neg pair]
      refine ⟨[c], rfl, .sign sign ?_⟩
      intro e first joined
      exact pair (Option.some.inj first ▸ apart e first joined)

/-- A parameter, a punctuation mark or an operator is written where one is read. -/
theorem writes_symbol {c : Char} {rest : List Char} (visible : isBlank c = false)
    (noLine : ¬ (c = '-' ∧ rest.head? = some '-')) (noBlock : ¬ (c = '/' ∧ rest.head? = some '*'))
    (noQuote : c ≠ '\'' ∧ c ≠ '"' ∧ c ≠ '\x60') (noDigit : c.isDigit = false)
    (noWord : startsWord c = false) :
    ∃ chars, c :: rest = chars ++ (readSymbol c rest).2 ∧
      Writes (readSymbol c rest).1 chars (readSymbol c rest).2 := by
  unfold readSymbol
  split
  · -- A parameter that is named.
    rename_i named
    obtain ⟨rfl, starts⟩ := named
    cases rest with
    | nil => simp at starts
    | cons d more =>
      have starts : startsWord d = true := by simpa using starts
      have goes := continuesWord_of_startsWord starts
      rw [List.dropWhile_cons_of_pos goes]
      exact ⟨':' :: d :: more.takeWhile continuesWord, by simp,
        .named starts (fun _ => List.mem_takeWhile_imp) (head?_dropWhile more)⟩
  split
  · -- A parameter by position.
    rename_i named numbered
    rcases numbered with rfl | ⟨rfl, digit⟩
    · exact ⟨'?' :: rest.takeWhile Char.isDigit, by simp,
        .positional (fun _ => List.mem_takeWhile_imp) (head?_dropWhile rest)⟩
    · cases rest with
      | nil => simp at digit
      | cons d more =>
        have digit : d.isDigit = true := by simpa using digit
        rw [List.dropWhile_cons_of_pos digit]
        exact ⟨'$' :: d :: more.takeWhile Char.isDigit, by simp,
          .numbered digit (fun _ => List.mem_takeWhile_imp) (head?_dropWhile more)⟩
  split
  · rename_i listed
    exact ⟨[c], rfl, .punctuation (by simpa using listed)⟩
  · rename_i noName noNumber noPunctuation
    obtain ⟨noMark, noDollar⟩ := not_or.mp noNumber
    refine writes_operator
      ⟨visible, noQuote, noDigit, noWord, noMark, by simpa using noPunctuation⟩ ?_
    -- Comments and parameters have been told apart, so what joins is an operator.
    intro d first joined
    rw [Option.mem_def] at first
    rcases joined with pair | ⟨rfl, rfl⟩ | ⟨rfl, rfl⟩ | ⟨rfl, starts⟩ | ⟨rfl, digit⟩
    · exact pair
    · exact absurd ⟨rfl, first⟩ noLine
    · exact absurd ⟨rfl, first⟩ noBlock
    · exact absurd ⟨rfl, by simp [first, starts]⟩ noName
    · exact absurd ⟨rfl, by simp [first, digit]⟩ noDollar

/-- A token is written where one is read. -/
theorem writes_readToken {c : Char} {rest : List Char} (visible : isBlank c = false)
    (noLine : ¬ (c = '-' ∧ rest.head? = some '-'))
    (noBlock : ¬ (c = '/' ∧ rest.head? = some '*')) :
    ∃ chars, c :: rest = chars ++ (readToken c rest).2 ∧
      Writes (readToken c rest).1 chars (readToken c rest).2 := by
  -- The cases are those of the reader, in their order.
  unfold readToken
  split
  · rename_i quote
    subst quote
    exact writes_string rest
  split
  · rename_i quote
    exact writes_quoted quote rest
  split
  · rename_i digit
    exact ⟨c :: rest.takeWhile fun d => d.isAlphanum || d = '.', by simp,
      .number digit (fun _ => List.mem_takeWhile_imp) (head?_dropWhile rest)⟩
  split
  · rename_i starts
    exact ⟨c :: rest.takeWhile continuesWord, by simp,
      .word starts (fun _ => List.mem_takeWhile_imp) (head?_dropWhile rest)⟩
  · rename_i noString noQuote noDigit noWord
    obtain ⟨noDouble, noBack⟩ := not_or.mp noQuote
    exact writes_symbol visible noLine noBlock ⟨noString, noDouble, noBack⟩
      (by simpa using noDigit) (by simpa using noWord)

/-- One step of the tokenizer: a token or a gap is read, and then what follows. -/
theorem tokenize_cons (c : Char) (rest : List Char) :
    tokenize (c :: rest) = (read c rest).1.toList ++ tokenize (read c rest).2 := by
  rw [tokenize]

/-- A text is tokenized into the tokens that it spells. -/
theorem tokenize_of_spells {tokens : List SqlToken} {text : List Char}
    (spelled : Spells tokens text) : tokenize text = tokens := by
  -- Each constructor is one step of the tokenizer.
  induction spelled with
  | done => rw [tokenize]
  | blank white later ih => simp [tokenize_cons, read, white, ih]
  | @lineComment body rest tokens inLine ends later ih =>
    have parts : ∀ d ∈ '-' :: body, (d != '\n') = true := by
      intro d member
      rcases List.mem_cons.mp member with rfl | member
      · decide
      · simpa using fun same : d = '\n' => inLine (same ▸ member)
    have stop : ∀ d ∈ rest.head?, (d != '\n') = false := fun d first => by simp [ends d first]
    rw [tokenize_cons, read, if_neg (by decide), if_pos ⟨rfl, rfl⟩, ← List.cons_append,
      dropWhile_stop parts stop, ih]
    rfl
  | blockComment inside later ih =>
    rw [tokenize_cons, read, if_neg (by decide), if_neg (by simp), if_pos ⟨rfl, rfl⟩,
      List.drop_one, List.tail_cons, afterComment_append inside, ih]
    rfl
  | openComment inside =>
    rw [tokenize_cons, read, if_neg (by decide), if_neg (by simp), if_pos ⟨rfl, rfl⟩,
      List.drop_one, List.tail_cons, afterComment_open inside, tokenize]
    rfl
  | @token token chars rest tokens written later ih =>
    cases chars with
    | nil => cases written
    | cons c more => rw [List.cons_append, tokenize_cons, read_written written, ih]; rfl

/-- The comments that may stand in front of the rest of a text. -/
inductive IsComment : List Char → List Char → Prop
  | line {body rest : List Char} (inLine : '\n' ∉ body) (ends : ∀ d ∈ rest.head?, d = '\n') :
      IsComment ('-' :: '-' :: body) rest
  | block {body rest : List Char} (inside : ¬ ['*', '/'] <:+: body) :
      IsComment ('/' :: '*' :: (body ++ ['*', '/'])) rest
  | openBlock {body : List Char} (inside : ¬ ['*', '/'] <:+: body) :
      IsComment ('/' :: '*' :: body) []

/-- What is read in one step, a token or a gap, in front of the rest of a text. -/
inductive ReadsAs : Option SqlToken → List Char → List Char → Prop
  | blank {c : Char} {rest : List Char} (white : isBlank c = true) : ReadsAs none [c] rest
  | comment {chars rest : List Char} (isComment : IsComment chars rest) : ReadsAs none chars rest
  | token {token : SqlToken} {chars rest : List Char} (written : Writes token chars rest) :
      ReadsAs (some token) chars rest

/-- A step reads a character of white space, a comment or a token. -/
theorem readsAs_read (c : Char) (rest : List Char) :
    ∃ chars, c :: rest = chars ++ (read c rest).2 ∧
      ReadsAs (read c rest).1 chars (read c rest).2 := by
  -- The cases are those of the reader, in their order.
  unfold read
  split
  · rename_i white
    exact ⟨[c], rfl, .blank white⟩
  split
  · rename_i dashes
    obtain ⟨rfl, dash⟩ := dashes
    obtain ⟨more, rfl⟩ := List.head?_eq_some_iff.mp dash
    rw [List.dropWhile_cons_of_pos (by decide)]
    have inLine : '\n' ∉ more.takeWhile (· != '\n') := fun member => by
      simpa using List.mem_takeWhile_imp member
    have ends : ∀ d ∈ (more.dropWhile (· != '\n')).head?, d = '\n' := fun d first => by
      simpa using head?_dropWhile more d first
    exact ⟨'-' :: '-' :: more.takeWhile (· != '\n'), by simp, .comment (.line inLine ends)⟩
  split
  · rename_i opened
    obtain ⟨rfl, star⟩ := opened
    obtain ⟨more, rfl⟩ := List.head?_eq_some_iff.mp star
    rw [List.drop_one, List.tail_cons]
    rcases afterComment_cases more with ⟨body, whole, inside⟩ | ⟨ends, inside⟩
    · exact ⟨'/' :: '*' :: (body ++ ['*', '/']), by simpa using whole, .comment (.block inside)⟩
    · -- The end of the comment is missing.
      rw [ends]
      exact ⟨'/' :: '*' :: more, by simp, .comment (.openBlock inside)⟩
  · rename_i visible noLine noBlock
    obtain ⟨chars, same, written⟩ := writes_readToken (by simpa using visible) noLine noBlock
    exact ⟨chars, same, .token written⟩

/-- What is read in one step is spelled in front of what follows. -/
theorem spells_readsAs {token? : Option SqlToken} {chars rest : List Char}
    {tokens : List SqlToken} (step : ReadsAs token? chars rest) (later : Spells tokens rest) :
    Spells (token?.toList ++ tokens) (chars ++ rest) := by
  -- Each kind of step is one way to spell, but an open comment leaves no text.
  cases step with
  | blank white => exact .blank white later
  | token written => exact .token written later
  | comment isComment =>
    cases isComment with
    | line inLine ends => exact .lineComment inLine ends later
    | block inside => simpa using Spells.blockComment inside later
    | openBlock inside =>
      obtain rfl : [] = tokens := by rw [← tokenize_of_spells later, tokenize]
      simpa using Spells.openComment inside

/-- A text spells the tokens that it is tokenized into. -/
theorem spells_tokenize (text : List Char) : Spells (tokenize text) text := by
  match text with
  | [] =>
    rw [tokenize]
    exact .done
  | c :: rest =>
    -- By recursion on the length of the text: one step leaves less of it.
    have shorter := read_length c rest
    obtain ⟨chars, same, step⟩ := readsAs_read c rest
    rw [tokenize_cons, same]
    exact spells_readsAs step (spells_tokenize (read c rest).2)
termination_by text.length

/-- The tokens of a text are exactly those that it spells. -/
theorem tokenize_eq_iff {tokens : List SqlToken} {text : List Char} :
    tokenize text = tokens ↔ Spells tokens text :=
  -- A text spells its tokens, and no other ones.
  ⟨fun same => same ▸ spells_tokenize text, tokenize_of_spells⟩

end SqlToken

end IndexAudit
