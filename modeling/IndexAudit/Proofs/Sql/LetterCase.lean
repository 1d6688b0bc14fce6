import IndexAudit.Proofs.Sql.Phrase
import IndexAudit.Proofs.Sql.Spelling
import IndexAudit.Proofs.Text.Search

/-!
Texts and their tokens with the ASCII letters in lower case.

Nothing that is asked of single characters depends on the case of ASCII letters, and neither does
the lower-case form of a text. So the same tokens are read, with the names among them in lower case.
-/

namespace IndexAudit

/-! Characters and texts. -/

/-- A character is only lowered if it is an ASCII one. -/
theorem toLower_eq_self {c : Char} (high : ¬ c.toNat < 0x80) : c.toLower = c :=
  -- Only the code points of capitals are moved, and those are in ASCII.
  dif_neg fun inRange => high (Nat.lt_of_le_of_lt (UInt32.le_iff_toNat_le.mp inRange.2) (by decide))

/-- What is the same for each ASCII character and its lower-case form is so for all characters. -/
theorem apply_toLower {α : Type} [DecidableEq α] {f : Char → α}
    (same : (List.range 0x80).all (fun code =>
      f (Char.ofNat code).toLower = f (Char.ofNat code)) = true) (c : Char) :
    f c.toLower = f c := by
  -- Outside of ASCII a character is its own lower-case form here.
  by_cases ascii : c.toNat < 0x80
  · simpa using ascii_imp (p := fun c => f c.toLower = f c) ascii same
  · rw [toLower_eq_self ascii]

/-- What is asked of the single characters of a text. -/
structure CharTraits where
  lowered : Char
  lowerForm : List Char
  blank : Bool
  digit : Bool
  letter : Bool
  alphanumeric : Bool
  cased : Bool
  caseIgnorable : Bool
  starts : Bool
  continues : Bool
deriving DecidableEq

/-- The answers for a character. -/
def CharTraits.of (c : Char) : CharTraits where
  lowered := c.toLower
  lowerForm := lowerChar c
  blank := isBlank c
  digit := c.isDigit
  letter := c.isAlpha
  alphanumeric := c.isAlphanum
  cased := isCased c
  caseIgnorable := isCaseIgnorable c
  starts := SqlToken.startsWord c
  continues := SqlToken.continuesWord c

/-- The answers are the same for either case of a letter. -/
theorem traits_toLower (c : Char) : CharTraits.of c.toLower = CharTraits.of c :=
  -- One table for all of them: the ASCII characters are gone through once.
  apply_toLower (by decide +kernel) c

/-- Lowering a character twice is lowering it once. -/
@[simp] theorem toLower_toLower (c : Char) : c.toLower.toLower = c.toLower :=
  -- The trait of the lowered character is that of the character.
  congrArg CharTraits.lowered (traits_toLower c)

/-- The lower-case form of a character is that of its other case. -/
@[simp] theorem lowerChar_toLower (c : Char) : lowerChar c.toLower = lowerChar c :=
  congrArg CharTraits.lowerForm (traits_toLower c)

/-- White space has no case. -/
@[simp] theorem isBlank_toLower (c : Char) : isBlank c.toLower = isBlank c :=
  congrArg CharTraits.blank (traits_toLower c)

/-- Digits have no case. -/
@[simp] theorem isDigit_toLower (c : Char) : c.toLower.isDigit = c.isDigit :=
  congrArg CharTraits.digit (traits_toLower c)

/-- A letter is one in either case. -/
theorem isAlpha_toLower (c : Char) : c.toLower.isAlpha = c.isAlpha :=
  congrArg CharTraits.letter (traits_toLower c)

/-- A letter or digit is one in either case. -/
@[simp] theorem isAlphanum_toLower (c : Char) : c.toLower.isAlphanum = c.isAlphanum :=
  congrArg CharTraits.alphanumeric (traits_toLower c)

/-- A letter takes part in case in either case. -/
@[simp] theorem isCased_toLower (c : Char) : isCased c.toLower = isCased c :=
  congrArg CharTraits.cased (traits_toLower c)

/-- Case looks through no letter, in either case. -/
@[simp] theorem isCaseIgnorable_toLower (c : Char) :
    isCaseIgnorable c.toLower = isCaseIgnorable c :=
  congrArg CharTraits.caseIgnorable (traits_toLower c)

/-- A character that is no letter has no case. -/
theorem toLower_of_isAlpha {c : Char} (noLetter : c.isAlpha = false) : c.toLower = c := by
  -- Only capitals are moved, and they are letters.
  have noCapital : c.isUpper = false := (Bool.or_eq_false_iff.mp noLetter).1
  exact dif_neg fun upper => Bool.eq_false_iff.mp noCapital (decide_eq_true upper)

/-- A character that is no letter is got from no other one. -/
theorem toLower_eq_iff {d : Char} (noLetter : d.isAlpha = false) (c : Char) :
    c.toLower = d ↔ c = d := by
  -- A letter is lowered to a letter, which the other character is not.
  cases letter : c.isAlpha with
  | false => rw [toLower_of_isAlpha letter]
  | true =>
    have lowered := (isAlpha_toLower c).trans letter
    constructor <;> rintro rfl <;> simp_all

section Text

variable {p : Char → Bool} (same : ∀ c, p c.toLower = p c) (text : List Char)
include same

/-- The start of a text is taken in either case. -/
theorem takeWhile_toLower :
    (text.map Char.toLower).takeWhile p = (text.takeWhile p).map Char.toLower := by
  -- The test is the same for each character and its lower-case form.
  rw [List.takeWhile_map]
  congr 2
  exact funext same

/-- The start of a text is dropped in either case. -/
theorem dropWhile_toLower :
    (text.map Char.toLower).dropWhile p = (text.dropWhile p).map Char.toLower := by
  -- The test is the same for each character and its lower-case form.
  rw [List.dropWhile_map]
  congr 2
  exact funext same

/-- What a text begins with has a property in either case. -/
theorem any_head?_toLower : (text.map Char.toLower).head?.any p = text.head?.any p := by
  -- A text has a first character in either case, or in none.
  cases text with
  | nil => rfl
  | cons c rest => exact same c

end Text

/-- A character that is no letter begins a text in either case. -/
theorem head?_toLower {d : Char} (noLetter : d.isAlpha = false) (text : List Char) :
    (text.map Char.toLower).head? = some d ↔ text.head? = some d := by
  -- The first character is lowered, and no other one is lowered to this one.
  cases text with
  | nil => simp
  | cons c rest => simpa using toLower_eq_iff noLetter c

/-- What takes part in case comes first in either case. -/
theorem startsCased_toLower (text : List Char) :
    startsCased (text.map Char.toLower) = startsCased text := by
  -- Case looks through the same characters, and stops at the same one.
  rw [startsCased, startsCased, dropWhile_toLower isCaseIgnorable_toLower]
  cases text.dropWhile isCaseIgnorable <;> simp

/-- A text has one lower-case form, whatever the case of its ASCII letters. -/
theorem lowerAfter_toLower (before text : List Char) :
    lowerAfter (before.map Char.toLower) (text.map Char.toLower) = lowerAfter before text := by
  induction text generalizing before with
  | nil => rfl
  | cons c rest ih =>
    -- A character counts by its lower-case form, and a sigma by what is around it.
    have sigma : c.toLower = 'Σ' ↔ c = 'Σ' := toLower_eq_iff (by decide) c
    have later := ih (c :: before)
    rw [List.map_cons] at later
    simp only [List.map_cons, lowerAfter, sigma, startsCased_toLower, lowerChar_toLower, later]

/-- The ASCII letters of a text in lower case. -/
theorem toList_toLower (text : String) : text.toLower.toList = text.toList.map Char.toLower :=
  String.toList_map

/-- A text is lowered letter by letter. -/
theorem toLower_ofList (text : List Char) :
    (String.ofList text).toLower = String.ofList (text.map Char.toLower) := by
  rw [← String.toList_inj, toList_toLower, String.toList_ofList, String.toList_ofList]

/-- A name is the same name, whatever the case of its ASCII letters. -/
@[simp] theorem lower_toLower (text : String) : lower text.toLower = lower text := by
  -- Both are lowered to the one form of the text.
  rw [lower, lower, lowerChars, toList_toLower]
  exact congrArg String.ofList (lowerAfter_toLower [] text.toList)

/-- A text is a keyword, whatever the case of its ASCII letters. -/
@[simp] theorem eqIgnoringAsciiCase_toLower (text word : String) :
    eqIgnoringAsciiCase text.toLower word = eqIgnoringAsciiCase text word := by
  simp [eqIgnoringAsciiCase, toList_toLower, Function.comp_def]

/-! Tokens. -/

namespace SqlToken

/-- A token with the ASCII letters of its name in lower case. -/
def lowered : SqlToken → SqlToken
  | .word text => .word text.toLower
  | .quoted text => .quoted text.toLower
  | token => token

section Tokens

variable (token : SqlToken)

/-- A token is a keyword in either case. -/
@[simp] theorem isKeyword_lowered (word : String) :
    token.lowered.isKeyword word = token.isKeyword word := by
  cases token <;> simp [lowered, isKeyword]

/-- A token is one of several keywords in either case. -/
@[simp] theorem isOneOf_lowered (words : List String) :
    token.lowered.isOneOf words = token.isOneOf words := by
  simp [isOneOf]

/-- The name of a token is lowered with it. -/
@[simp] theorem ident?_lowered : token.lowered.ident? = token.ident?.map String.toLower := by
  cases token <;> rfl

/-- Nothing but names changes with the case. -/
theorem lowered_eq_iff {other : SqlToken} (nameless : other.ident? = none) :
    token.lowered = other ↔ token = other := by
  -- Only words and quoted names are changed, and both are names.
  cases token <;> cases other <;> simp [lowered, ident?] at nameless ⊢

/-- Brackets have no case. -/
@[simp] theorem nest_lowered : token.lowered.nest = token.nest := by
  cases token <;> rfl

end Tokens

/-- A letter begins a word in either case. -/
@[simp] theorem startsWord_toLower (c : Char) : startsWord c.toLower = startsWord c :=
  congrArg CharTraits.starts (traits_toLower c)

/-- A letter is part of a word in either case. -/
@[simp] theorem continuesWord_toLower (c : Char) : continuesWord c.toLower = continuesWord c :=
  congrArg CharTraits.continues (traits_toLower c)

/-- What begins no word has no case. -/
theorem toLower_of_startsWord {c : Char} (noWord : startsWord c = false) : c.toLower = c := by
  -- In ASCII each character is looked at, and outside of it none is lowered.
  by_cases ascii : c.toNat < 0x80
  · have each := ascii_imp (p := fun c => startsWord c || c.toLower == c) ascii (by decide +kernel)
    simpa [noWord] using each
  · exact toLower_eq_self ascii

/-- What follows a comment is lowered with the text. -/
theorem afterComment_toLower (text : List Char) :
    afterComment (text.map Char.toLower) = (afterComment text).map Char.toLower := by
  fun_induction afterComment text with
  | case1 rest => rfl
  | case2 c rest open_ ih =>
    -- The star and the slash are no letters, so the comment ends in the same place.
    have goes : ¬ (c.toLower = '*' ∧ (rest.map Char.toLower).head? = some '/') := by
      rw [toLower_eq_iff (by decide), head?_toLower (by decide)]
      rintro ⟨rfl, slash⟩
      obtain ⟨after, rfl⟩ := List.head?_eq_some_iff.mp slash
      exact open_ after rfl rfl
    rw [List.map_cons, afterComment_cons goes, ih]
  | case3 => rfl

/-- What follows a string literal is lowered with the text. -/
theorem afterString_toLower (text : List Char) :
    afterString (text.map Char.toLower) = (afterString text).map Char.toLower := by
  -- A quote has no letter case, so the literal ends at the same place.
  fun_induction afterString text with
  | case1 rest ih => exact ih
  | case2 rest single =>
    have ends : (rest.map Char.toLower).head? ≠ some '\'' := by
      rw [Ne, head?_toLower (by decide)]
      intro quote
      obtain ⟨after, rfl⟩ := List.head?_eq_some_iff.mp quote
      exact single after rfl
    exact afterString_quote ends
  | case3 c rest _ noQuote ih =>
    have apart : c.toLower ≠ '\'' := by
      rw [Ne, toLower_eq_iff (by decide)]
      exact noQuote
    rw [List.map_cons, afterString_cons apart, ih]
  | case4 => rfl

/-- The second character of an operator has no case. -/
theorem mem_pairOperators_toLower (c d : Char) :
    (c, d.toLower) ∈ pairOperators ↔ (c, d) ∈ pairOperators := by
  -- All second characters in the list are no letters.
  simp (disch := decide) only [pairOperators, List.mem_cons, Prod.mk.injEq, toLower_eq_iff,
    List.not_mem_nil]

/-- An operator is read in either case. -/
theorem readOperator_toLower (c : Char) (rest : List Char) :
    readOperator c (rest.map Char.toLower) =
      ((readOperator c rest).1.lowered, (readOperator c rest).2.map Char.toLower) := by
  -- Operators of two characters hold no letters, and any other is one character.
  cases rest with
  | nil => rfl
  | cons d after =>
    simp only [List.map_cons, readOperator, mem_pairOperators_toLower]
    split
    · rename_i pair
      have same : d.toLower = d := by
        have each : ∀ pair ∈ pairOperators, pair.2.isAlpha = false := by decide
        exact toLower_of_isAlpha (each _ pair)
      simp [same, lowered]
    · simp [lowered]

/-- A symbol is lowered with the text that it is read from. -/
theorem readSymbol_toLower (c : Char) (rest : List Char) :
    readSymbol c (rest.map Char.toLower) =
      ((readSymbol c rest).1.lowered, (readSymbol c rest).2.map Char.toLower) := by
  -- Which kind of symbol it is, and where it ends, its first characters tell in either case.
  simp only [readSymbol, any_head?_toLower startsWord_toLower, any_head?_toLower isDigit_toLower,
    dropWhile_toLower continuesWord_toLower, dropWhile_toLower isDigit_toLower,
    readOperator_toLower]
  split
  · rfl
  split
  · rfl
  split
  · rfl
  · rfl

/-- A token is lowered with the text that it is read from. -/
theorem readToken_toLower (c : Char) (rest : List Char) :
    readToken c.toLower (rest.map Char.toLower) =
      ((readToken c rest).1.lowered, (readToken c rest).2.map Char.toLower) := by
  simp (disch := decide) only [readToken, toLower_eq_iff, startsWord_toLower, isDigit_toLower]
  split
  · rw [afterString_toLower]
    rfl
  split
  -- A quoted identifier ends with the quote that it began with.
  · rename_i quote
    have noLetter : c.isAlpha = false := by rcases quote with rfl | rfl <;> decide
    have mark (d : Char) : (d.toLower != c) = (d != c) :=
      congrArg (!·) (Bool.eq_iff_iff.mpr (by simpa using toLower_eq_iff noLetter d))
    rw [toLower_of_isAlpha noLetter, takeWhile_toLower mark, dropWhile_toLower mark,
      ← List.map_drop, lowered, toLower_ofList]
  split
  · have part (d : Char) : (d.toLower.isAlphanum || decide (d.toLower = '.')) =
        (d.isAlphanum || decide (d = '.')) := by
      simp (disch := decide) [toLower_eq_iff]
    rw [dropWhile_toLower part]
    rfl
  split
  · rw [takeWhile_toLower continuesWord_toLower, dropWhile_toLower continuesWord_toLower,
      lowered, toLower_ofList, List.map_cons]
  -- What begins no word is no letter, and stays as it is.
  · rename_i noWord
    rw [toLower_of_startsWord (by simpa using noWord), readSymbol_toLower]

/-- What stands at the start of a text is lowered with it. -/
theorem read_toLower (c : Char) (rest : List Char) :
    read c.toLower (rest.map Char.toLower) =
      ((read c rest).1.map lowered, (read c rest).2.map Char.toLower) := by
  simp (disch := decide) only [read, isBlank_toLower, toLower_eq_iff, head?_toLower]
  split
  · rfl
  split
  -- A comment up to the end of its line.
  · have lineBreak (d : Char) : (d.toLower != '\n') = (d != '\n') :=
      congrArg (!·) (Bool.eq_iff_iff.mpr (by simpa using toLower_eq_iff (by decide) d))
    rw [dropWhile_toLower lineBreak]
    rfl
  split
  · rw [← List.map_drop, afterComment_toLower]
    rfl
  · rw [readToken_toLower]
    rfl

/-- The tokens of a text are lowered with it. -/
theorem tokenize_toLower (text : List Char) :
    tokenize (text.map Char.toLower) = (tokenize text).map lowered := by
  -- A token is read and lowered, and the rest is by induction.
  fun_induction tokenize text with
  | case1 => rw [List.map_nil, tokenize, List.map_nil]
  | case2 c rest _ ih =>
    rw [List.map_cons, tokenize_cons, read_toLower]
    simp only [ih, List.map_append, Option.toList_map]

/-- The tokens of a string are lowered with it. -/
theorem ofString_toLower (text : String) :
    ofString text.toLower = (ofString text).map lowered := by
  rw [ofString, ofString, toList_toLower, tokenize_toLower]

end SqlToken

/-- Parts are divided in the same places if each element is replaced by one that plays its part. -/
theorem Cut.split_map {α β : Type} {cut : Option α → α → Cut} {other : Option β → β → Cut}
    {f : α → β} (same : ∀ previous x, other (previous.map f) (f x) = cut previous x)
    (depth angles : Nat) (previous : Option α) (items : List α) :
    split other depth angles (previous.map f) (items.map f) =
      (split cut depth angles previous items).map (List.map f) := by
  -- A part is replaced character by character, also the one that is being read.
  have extend (x : α) (parts : List (List α)) :
      extendFirst (f x) (parts.map (List.map f)) = (extendFirst x parts).map (List.map f) := by
    cases parts <;> rfl
  induction items generalizing depth angles previous with
  | nil => rfl
  | cons x rest ih =>
    have later (depth angles : Nat) := ih depth angles (some x)
    rw [Option.map_some] at later
    simp only [List.map_cons, split, same, later, extend]
    split
    · rfl
    · rfl
    · split <;> rfl

namespace SqlToken

section Lists

variable (tokens : List SqlToken)

/-- A list of tokens begins with a keyword in either case. -/
@[simp] theorem startsWith_lowered (word : String) :
    startsWith word (tokens.map lowered) = startsWith word tokens := by
  cases tokens <;> simp [startsWith]

/-- A keyword is skipped in either case. -/
theorem skip_lowered (word : String) :
    skip word (tokens.map lowered) = (skip word tokens).map lowered := by
  -- The keyword begins both lists or neither.
  rw [skip, skip, startsWith_lowered]
  split
  · rw [List.map_drop]
  · rfl

/-- What begins a list of tokens is nameless or not in either case. -/
theorem head?_lowered {token : SqlToken} (nameless : token.ident? = none) :
    (tokens.map lowered).head? = some token ↔ tokens.head? = some token := by
  -- Lowering changes names only, and a nameless token is none.
  cases tokens with
  | nil => simp
  | cons first rest => simpa using lowered_eq_iff first nameless

end Lists

/-- A list is divided at its commas in either case. -/
theorem splitCommas_lowered (tokens : List SqlToken) :
    splitCommas (tokens.map lowered) = (splitCommas tokens).map (List.map lowered) := by
  -- Commas and brackets are nameless, so the cuts are the same.
  refine Cut.split_map (fun previous token => ?_) 0 0 none tokens
  have comma : token.lowered = .punctuation ',' ↔ token = .punctuation ',' :=
    lowered_eq_iff token rfl
  simp [cutAtComma, comma]

end SqlToken

end IndexAudit
