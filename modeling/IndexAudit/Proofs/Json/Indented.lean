import IndexAudit.Json.Document
import IndexAudit.Json.Indented
import IndexAudit.Json.Token
import Mathlib.Data.List.TakeDrop

/-! A JSON value written over several lines is read back as the same value. -/

namespace IndexAudit

/-! The pieces of a written document are read back as the tokens they were written for. -/

namespace JsonUnit

/-- The unit that a character is written as. -/
def ofChar (c : Char) : JsonUnit :=
  if c.toNat < 0x20 ∧ c ≠ '\x08' ∧ c ≠ '\x0c' ∧ c ≠ '\n' ∧ c ≠ '\r' ∧ c ≠ '\t' then
    .escaped c.toNat
  else .char c

/-- The unit of a character stands for it, whatever units follow. -/
theorem text?_ofChar (c : Char) (rest : List JsonUnit) :
    text? (ofChar c :: rest) = (text? rest).map (c :: ·) := by
  unfold ofChar
  split
  · -- A control character is no half of a pair, so what follows does not join it.
    rename_i control
    have notHigh : isHigh c.toNat = false := by simp [isHigh]; omega
    have notLow : isLow c.toNat = false := by simp [isLow]; omega
    cases rest with
    | nil => simp [text?, notHigh, notLow]
    | cons unit rest => cases unit <;> simp [text?, notHigh, notLow]
  · simp [text?]

/-- The units of a text stand for it. -/
theorem text?_map_ofChar (text : List Char) : text? (text.map ofChar) = some text := by
  -- cons c rest|Each unit stands for its character.
  induction text with
  | nil => rfl
  | cons c rest ih => simp [text?_ofChar, ih]

end JsonUnit

namespace JsonToken

/-- Four digits are enough to write a control character. -/
theorem natural?_control {code : Nat} (control : code < 0x20) :
    Numeral.natural? 16 ['0', '0', Numeral.digitChar (code / 16), Numeral.digitChar (code % 16)]
      = some code := by
  -- There are thirty-two of them.
  have each : ∀ code < 0x20, Numeral.natural? 16
      ['0', '0', Numeral.digitChar (code / 16), Numeral.digitChar (code % 16)] = some code := by
    decide
  exact each code control

/-- A character that needs no escape is read as itself. -/
theorem readUnits?_printed {c : Char} (rest : List Char) (notQuote : c ≠ '"')
    (notBackslash : c ≠ '\\') (printed : ¬ c.toNat < 0x20) :
    readUnits? (c :: rest) =
      (readUnits? rest).map fun read => (JsonUnit.char c :: read.1, read.2) := by
  -- The cases in front of the last one are for the end, quotes and backslashes.
  rw [readUnits?.eq_def]
  split
  case h_1 | h_2 | h_3 | h_4 => simp_all
  case h_5 =>
    rename_i same
    obtain ⟨rfl, rfl⟩ := List.cons.inj same
    rw [if_neg printed]
    cases readUnits? rest <;> rfl

/-- A written character is read back as one unit, whatever follows. -/
theorem readUnits?_writeChar (c : Char) (rest : List Char) :
    readUnits? (JsonValue.writeChar c ++ rest) =
      (readUnits? rest).map fun read => (JsonUnit.ofChar c :: read.1, read.2) := by
  -- The last case is for all characters that have no letter of their own behind a backslash.
  unfold JsonValue.writeChar
  split
  case h_8 =>
    rename_i notQuote notBackslash notBackspace notFeed notLine notReturn notTab
    split
    · rename_i control
      have unit : JsonUnit.ofChar c = .escaped c.toNat := by
        exact if_pos ⟨control, notBackspace, notFeed, notLine, notReturn, notTab⟩
      cases later : readUnits? rest <;>
        simp [readUnits?, natural?_control control, unit, later]
    · rename_i printed
      have unit : JsonUnit.ofChar c = .char c := by simp [JsonUnit.ofChar, printed]
      rw [unit]
      exact readUnits?_printed rest notQuote notBackslash printed
  all_goals
    cases later : readUnits? rest <;> simp [readUnits?, escape?, JsonUnit.ofChar, later]

/-- A written text is read back unit by unit up to its closing quote. -/
theorem readUnits?_written (text rest : List Char) :
    readUnits? (text.flatMap JsonValue.writeChar ++ '"' :: rest) =
      some (text.map JsonUnit.ofChar, rest) := by
  -- Each character is read before what is behind it, down to the quote.
  induction text with
  | nil => simp [readUnits?]
  | cons c text ih => simp [readUnits?_writeChar, ih, List.append_assoc]

end JsonToken

/-- A number written as digits alone, of which no zero begins more than one. -/
structure JsonNumber.IsPlain (number : JsonNumber) : Prop where
  positive : number.negative = false
  unbroken : number.fraction = []
  unscaled : number.exponent = none
  digits : ∀ c ∈ number.whole, c.isDigit = true
  nonempty : number.whole ≠ []
  leading : ∀ rest, number.whole = '0' :: rest → rest = []

namespace JsonToken

/-- Nothing at the start of a text continues a number in front of it. -/
def EndsNumber (text : List Char) : Prop :=
  ∀ c, text.head? = some c → c.isDigit = false ∧ c ≠ '.' ∧ c ≠ 'e' ∧ c ≠ 'E'

/-- Digits are read up to where a number ends. -/
theorem readDigits_append {digits rest : List Char} (all : ∀ c ∈ digits, c.isDigit = true)
    (ends : EndsNumber rest) : readDigits (digits ++ rest) = (digits, rest) := by
  -- What follows begins with no digit, so none of it is taken.
  have stops : rest.takeWhile Char.isDigit = [] ∧ rest.dropWhile Char.isDigit = rest := by
    cases rest with
    | nil => simp
    | cons c rest => simp [(ends c rfl).1]
  simp [readDigits, List.span_eq_takeWhile_dropWhile, List.takeWhile_append_of_pos all,
    List.dropWhile_append_of_pos all, stops]

/-- A digit begins no other token. -/
theorem read?_digit {c : Char} (digit : c.isDigit = true) (rest : List Char) :
    read? (c :: rest) = readNumber? false (c :: rest) := by
  -- The cases in front of the last one begin with other characters.
  rw [read?.eq_def]
  split
  case h_12 => rfl
  all_goals simp_all

/-- No point follows where a number ends. -/
theorem readFraction?_ends {rest : List Char} (ends : EndsNumber rest) :
    readFraction? rest = some ([], rest) := by
  rw [readFraction?.eq_def]
  -- A number ends where no point comes.
  split
  · exact absurd rfl (ends '.' rfl).2.1
  · rfl

/-- No exponent follows where a number ends. -/
theorem readExponent?_ends {rest : List Char} (ends : EndsNumber rest) :
    readExponent? rest = some (none, rest) := by
  cases rest with
  | nil => rfl
  | cons c rest =>
    -- What ends a number is no letter that begins an exponent.
    obtain ⟨_, _, small, capital⟩ := ends c rfl
    simp [readExponent?, small, capital]

/-- The digits of a plain number are read up to their end. -/
theorem readWhole?_plain {number : JsonNumber} (plain : number.IsPlain) {rest : List Char}
    (ends : EndsNumber rest) :
    readWhole? (number.whole ++ rest) = some (number.whole, rest) := by
  -- The two cases that fail are for no digit at all, and for one behind a leading zero.
  rw [readWhole?, readDigits_append plain.digits ends]
  split
  · rename_i none
    exact absurd (Prod.mk.inj none).1 plain.nonempty
  · rename_i zero
    exact absurd (plain.leading _ (Prod.mk.inj zero).1) (by simp)
  · rfl

/-- A plain number is written as its digits. -/
theorem writeNumber_plain {number : JsonNumber} (plain : number.IsPlain) :
    JsonValue.writeNumber number = number.whole := by
  -- It has no sign, no fraction and no exponent.
  simp [JsonValue.writeNumber, plain.positive, plain.unbroken, plain.unscaled]

/-- A plain number is read back as it was written. -/
theorem read?_writeNumber {number : JsonNumber} (plain : number.IsPlain) {rest : List Char}
    (ends : EndsNumber rest) :
    read? (JsonValue.writeNumber number ++ rest) = some (.number number, rest) := by
  have same : number = ⟨false, number.whole, [], none⟩ := by
    rw [← plain.positive, ← plain.unbroken, ← plain.unscaled]
  have readBack : readNumber? false (number.whole ++ rest) = some (.number number, rest) := by
    rw [readNumber?, readWhole?_plain plain ends]
    simp only [Option.bind_eq_bind, Option.bind_some, readFraction?_ends ends,
      readExponent?_ends ends]
    rw [← same]
  rw [writeNumber_plain plain, ← readBack]
  -- What begins with a digit is tried as a number.
  cases digits : number.whole with
  | nil => exact absurd digits plain.nonempty
  | cons c others => exact read?_digit (plain.digits c (by simp [digits])) _

/-- A digit is no white space. -/
theorem isGap_digit {c : Char} (digit : c.isDigit = true) : isGap c = false := by
  cases gap : isGap c with
  | false => rfl
  | true =>
    simp only [isGap, Bool.or_eq_true, decide_eq_true_eq] at gap
    -- There are four characters of white space, and none of them is a digit.
    rcases gap with ((rfl | rfl) | rfl) | rfl <;> exact absurd digit (by decide)

/-- A text is cut into tokens, however many steps beyond its length are taken. -/
def Tokenizes (text : List Char) (tokens : List JsonToken) : Prop :=
  ∀ length, text.length ≤ length → tokenizeWithin? length text = some tokens

/-- There are no tokens in an empty text. -/
theorem tokenizes_nil : Tokenizes [] [] := by
  intro length _
  -- Whatever the fuel, nothing is left to read.
  cases length <;> simp [tokenizeWithin?]

/-- White space in front of tokens is passed over. -/
theorem Tokenizes.gap {c : Char} {text : List Char} {tokens : List JsonToken}
    (after : Tokenizes text tokens) (isGap : JsonToken.isGap c = true) :
    Tokenizes (c :: text) tokens := by
  intro length enough
  cases length with
  | zero => simp at enough
  | succ length =>
    simp only [List.length_cons, Nat.add_le_add_iff_right] at enough
    -- White space takes up a character but makes no token, so one is to spare.
    rw [← after (length + 1) (by omega)]
    simp [tokenizeWithin?, isGap]

/-- A token in front of others is read first. -/
theorem Tokenizes.token {c : Char} {text : List Char} {token : JsonToken}
    {tokens : List JsonToken} (piece : List Char) (after : Tokenizes text tokens)
    (solid : JsonToken.isGap c = false) (read : read? (c :: (piece ++ text)) = some (token, text)) :
    Tokenizes (c :: (piece ++ text)) (token :: tokens) := by
  intro length enough
  -- The token has at least one character, so the step it takes is there.
  cases length with
  | zero => simp at enough
  | succ length =>
    simp only [List.length_cons, List.length_append] at enough
    simp [tokenizeWithin?, solid, read, after length (by omega)]

end JsonToken

/-! A value is read back from its tokens. -/

namespace JsonValue

mutual

/-- A value whose strings have texts and whose numbers are plain. -/
def IsExact : JsonValue → Prop
  | .null => True
  | .bool _ => True
  | .number value => value.IsPlain
  | .string text => text.isSome
  | .array items => ItemsExact items
  | .object members => MembersExact members

/-- Items all of which are exact. -/
def ItemsExact : List JsonValue → Prop
  | [] => True
  | item :: rest => IsExact item ∧ ItemsExact rest

/-- Members whose keys have texts and whose values are exact. -/
def MembersExact : List (Option String × JsonValue) → Prop
  | [] => True
  | (key, value) :: rest => key.isSome ∧ IsExact value ∧ MembersExact rest

end

mutual

/-- The tokens that a value is written in. -/
def tokens : JsonValue → List JsonToken
  | .null => [.null]
  | .bool value => [.bool value]
  | .number value => [.number value]
  | .string text => [.string text]
  -- An empty list has no comma and no line of its own, and so its own case.
  | .array [] => [.openArray, .closeArray]
  | .array (item :: rest) => .openArray :: (tokens item ++ (itemTokens rest ++ [.closeArray]))
  | .object [] => [.openObject, .closeObject]
  | .object ((key, value) :: rest) =>
    .openObject :: .string key :: .colon :: (tokens value ++ (memberTokens rest ++ [.closeObject]))

/-- The tokens of the items behind the first one. -/
def itemTokens : List JsonValue → List JsonToken
  | [] => []
  | item :: rest => .comma :: (tokens item ++ itemTokens rest)

/-- The tokens of the members behind the first one. -/
def memberTokens : List (Option String × JsonValue) → List JsonToken
  | [] => []
  | (key, value) :: rest =>
    .comma :: .string key :: .colon :: (tokens value ++ memberTokens rest)

end

/-- The tokens of a value do not begin by closing anything. -/
theorem tokens_head (value : JsonValue) : ∃ token rest, tokens value = token :: rest ∧
    token ≠ .closeArray ∧ token ≠ .closeObject := by
  -- Even an empty array or object is opened first.
  cases value with
  | array items => cases items <;> simp [tokens]
  | object members => cases members <;> simp [tokens]
  | _ => simp [tokens]

/-- Within some steps, a value is read from its tokens, and what follows is left. -/
def ReadsValues (steps : Nat) : Prop :=
  ∀ value rest, 2 * (tokens value).length ≤ steps →
    read? steps (tokens value ++ rest) = some (value, rest)

/-- Within some steps, so are items up to the end of their array. -/
def ReadsItems (steps : Nat) : Prop :=
  ∀ item items rest, 2 * (tokens item ++ itemTokens items).length + 2 ≤ steps →
    readItems? steps (tokens item ++ (itemTokens items ++ .closeArray :: rest)) =
      some (item :: items, rest)

/-- Within some steps, so are members up to the end of their object. -/
def ReadsMembers (steps : Nat) : Prop :=
  ∀ key value members rest, 2 * (tokens value ++ memberTokens members).length + 2 ≤ steps →
    readMembers? steps (.string key :: .colon ::
        (tokens value ++ (memberTokens members ++ .closeObject :: rest))) =
      some ((key, value) :: members, rest)

/-- Where items and members are read, a value is read in one step more. -/
theorem readsValues_succ {steps : Nat} (readItems : ReadsItems steps)
    (readMembers : ReadsMembers steps) : ReadsValues (steps + 1) := by
  intro value rest enough
  cases value with
  | null | bool _ | number _ | string _ => simp [tokens, read?]
  | array items =>
    cases items with
    | nil => simp [tokens, read?]
    | cons item items =>
      simp only [tokens, List.length_cons, List.length_append, List.length_nil] at enough
      have inner := readItems item items rest (by simp only [List.length_append]; omega)
      -- The first item keeps the array from being taken for an empty one.
      obtain ⟨token, others, tokensEq, notClosed, _⟩ := tokens_head item
      simp only [tokens, tokensEq, List.cons_append, List.append_assoc, List.nil_append]
        at inner ⊢
      simp only [read?]
      split
      · rename_i closed
        exact absurd (List.cons.inj closed).1 notClosed
      · rw [inner]
        rfl
  | object members =>
    cases members with
    | nil => simp [tokens, read?]
    | cons member members =>
      simp only [tokens, List.length_cons, List.length_append, List.length_nil] at enough
      have inner := readMembers member.1 member.2 members rest
        (by simp only [List.length_append]; omega)
      simp only [tokens, List.cons_append, List.append_assoc, List.nil_append, read?, inner,
        Option.map_some]

/-- Where values and further items are read, items are read in one step more. -/
theorem readsItems_succ {steps : Nat} (readValue : ReadsValues steps)
    (readItems : ReadsItems steps) : ReadsItems (steps + 1) := by
  intro item items rest enough
  simp only [List.length_append] at enough
  rw [readItems?]
  cases items with
  | nil => simp [itemTokens, readValue item (.closeArray :: rest) (by omega)]
  | cons next items =>
    -- The comma behind the first item leaves two steps less for the others.
    simp only [itemTokens, List.length_cons, List.length_append] at enough
    have head := readValue item
      (.comma :: (tokens next ++ (itemTokens items ++ .closeArray :: rest))) (by omega)
    have tail := readItems next items rest (by simp only [List.length_append]; omega)
    simp [itemTokens, head, tail]

/-- Where values and further members are read, members are read in one step more. -/
theorem readsMembers_succ {steps : Nat} (readValue : ReadsValues steps)
    (readMembers : ReadsMembers steps) : ReadsMembers (steps + 1) := by
  intro key value members rest enough
  -- Steps are counted by the tokens of the values; those of the keys come in addition.
  simp only [List.length_append] at enough
  rw [readMembers?]
  cases members with
  | nil => simp [memberTokens, readValue value (.closeObject :: rest) (by omega)]
  | cons next members =>
    simp only [memberTokens, List.length_cons, List.length_append] at enough
    have head := readValue value (.comma :: .string next.1 :: .colon ::
      (tokens next.2 ++ (memberTokens members ++ .closeObject :: rest))) (by omega)
    have tail := readMembers next.1 next.2 members rest
      (by simp only [List.length_append]; omega)
    simp [memberTokens, head, tail]

/-- Whatever number of steps there is, tokens that are few enough for it are read. -/
theorem reads_all (steps : Nat) : ReadsValues steps ∧ ReadsItems steps ∧ ReadsMembers steps := by
  -- Each nested reading has one step less, and at least two steps for each of its tokens.
  induction steps with
  | zero =>
    refine ⟨?_, ?_, ?_⟩
    · intro value rest enough
      obtain ⟨token, others, tokensEq, _⟩ := tokens_head value
      simp [tokensEq] at enough
    · intro item items rest enough
      omega
    · intro key value members rest enough
      omega
  | succ steps ih =>
    obtain ⟨readValues, readItems, readMembers⟩ := ih
    exact ⟨readsValues_succ readItems readMembers, readsItems_succ readValues readItems,
      readsMembers_succ readValues readMembers⟩

/-- The tokens of a value are read as the value. -/
theorem read?_tokens {steps : Nat} (value : JsonValue) (rest : List JsonToken)
    (enough : 2 * (tokens value).length ≤ steps) :
    read? steps (tokens value ++ rest) = some (value, rest) :=
  -- The steps are enough for its tokens, whatever follows.
  (reads_all steps).1 value rest enough

open JsonToken

/-- A token of one mark is read as it stands. -/
theorem tokenizes_mark {c : Char} {token : JsonToken} {text : List Char} {tokens : List JsonToken}
    (solid : isGap c = false) (read : ∀ rest, JsonToken.read? (c :: rest) = some (token, rest))
    (after : Tokenizes text tokens) : Tokenizes (c :: text) (token :: tokens) :=
  after.token [] solid (read text)

/-- A new line and its indentation are passed over. -/
theorem tokenizes_newLine (depth : Nat) {text : List Char} {tokens : List JsonToken}
    (after : Tokenizes text tokens) : Tokenizes (newLine depth ++ text) tokens := by
  -- The indentation is a number of spaces, each of which is white space.
  have spaces : ∀ count, Tokenizes (List.replicate count ' ' ++ text) tokens := by
    intro count
    induction count with
    | zero => exact after
    | succ count ih => exact ih.gap rfl
  exact (spaces (2 * depth)).gap rfl

/-- A written text is one token. -/
theorem tokenizes_writeString (string : String) {text : List Char} {tokens : List JsonToken}
    (after : Tokenizes text tokens) :
    Tokenizes (writeString string ++ text) (.string (some string) :: tokens) := by
  -- The quote in front tells the token, and the one behind it where it ends.
  have read : JsonToken.read? (writeString string ++ text) =
      some (.string (some string), text) := by
    simp [writeString, JsonToken.read?, readUnits?_written, JsonUnit.text?_map_ofChar]
  exact after.token (string.toList.flatMap writeChar ++ ['"']) rfl read

/-- A plain number is one token where it ends. -/
theorem tokenizes_writeNumber {number : JsonNumber} (plain : number.IsPlain) {text : List Char}
    {tokens : List JsonToken} (ends : EndsNumber text) (after : Tokenizes text tokens) :
    Tokenizes (writeNumber number ++ text) (.number number :: tokens) := by
  have read := read?_writeNumber plain ends
  rw [writeNumber_plain plain] at read ⊢
  -- A number begins with a digit, so no white space is passed over.
  cases digits : number.whole with
  | nil => exact absurd digits plain.nonempty
  | cons c piece =>
    rw [digits] at read
    have digit := plain.digits c (by simp [digits])
    exact after.token piece (isGap_digit digit) read

/-- The key of a member is one token, and the colon behind it another. -/
theorem tokenizes_key (key : String) {text : List Char} {tokens : List JsonToken}
    (after : Tokenizes text tokens) :
    Tokenizes (writeString key ++ ':' :: ' ' :: text) (.string (some key) :: .colon :: tokens) :=
  -- A string is one token, and so is each mark; the space is a gap.
  tokenizes_writeString key (@tokenizes_mark ':' _ _ _ rfl (fun _ => rfl) (after.gap rfl))

/-- A comma or a new line ends a number. -/
theorem endsNumber_cons {c : Char} (rest : List Char) (mark : c = ',' ∨ c = '\n') :
    EndsNumber (c :: rest) := by
  intro first same
  obtain rfl : c = first := by simpa using same
  -- Neither of the two is part of a number.
  rcases mark with rfl | rfl <;> decide

/-- A new line ends a number, whatever its indentation. -/
theorem endsNumber_newLine (depth : Nat) (text : List Char) : EndsNumber (newLine depth ++ text) :=
  -- A number ends at white space, and a new line is such.
  endsNumber_cons _ (Or.inr rfl)

/-- What is written behind an item ends a number. -/
theorem endsNumber_writeItems (depth : Nat) (items : List JsonValue) {text : List Char}
    (ends : EndsNumber text) : EndsNumber (writeItems depth items ++ text) := by
  -- The items begin with a comma, if there are any.
  cases items with
  | nil => exact ends
  | cons item items => exact endsNumber_cons _ (Or.inl rfl)

/-- What is written behind a member ends a number. -/
theorem endsNumber_writeMembers (depth : Nat) (members : List (Option String × JsonValue))
    {text : List Char} (ends : EndsNumber text) :
    EndsNumber (writeMembers depth members ++ text) := by
  -- The members begin with a comma, if there are any.
  cases members with
  | nil => exact ends
  | cons member members => exact endsNumber_cons _ (Or.inl rfl)

mutual

/-- A written value is cut into its tokens. -/
theorem tokenizes_write (value : JsonValue) (exact : value.IsExact) (depth : Nat)
    {text : List Char} {rest : List JsonToken} (ends : EndsNumber text)
    (after : Tokenizes text rest) :
    Tokenizes (write depth value ++ text) (tokens value ++ rest) := by
  -- From the end to the front: what stands behind a part is cut before the part itself.
  match value with
  | .null => exact after.token "ull".toList rfl rfl
  | .bool true => exact after.token "rue".toList rfl rfl
  | .bool false => exact after.token "alse".toList rfl rfl
  | .number _ => exact tokenizes_writeNumber exact ends after
  | .string written =>
    obtain ⟨written, rfl⟩ := Option.isSome_iff_exists.mp exact
    exact tokenizes_writeString written after
  | .array [] => exact tokenizes_mark rfl (fun _ => rfl) (tokenizes_mark rfl (fun _ => rfl) after)
  | .array (item :: items) =>
    -- The new line behind the items ends a number that may stand last.
    have closed := tokenizes_newLine depth (@tokenizes_mark ']' _ _ _ rfl (fun _ => rfl) after)
    have stops := endsNumber_newLine depth (']' :: text)
    have behind := tokenizes_writeItems items exact.2 (depth + 1) stops closed
    have inner := tokenizes_write item exact.1 (depth + 1)
      (endsNumber_writeItems (depth + 1) items stops) behind
    have opened := @tokenizes_mark '[' _ _ _ rfl (fun _ => rfl)
      (tokenizes_newLine (depth + 1) inner)
    simpa [write, tokens, List.append_assoc] using opened
  | .object [] => exact tokenizes_mark rfl (fun _ => rfl) (tokenizes_mark rfl (fun _ => rfl) after)
  | .object ((key, value) :: members) =>
    obtain ⟨key, rfl⟩ := Option.isSome_iff_exists.mp exact.1
    have closed := tokenizes_newLine depth (@tokenizes_mark '}' _ _ _ rfl (fun _ => rfl) after)
    have stops := endsNumber_newLine depth ('}' :: text)
    have behind := tokenizes_writeMembers members exact.2.2 (depth + 1) stops closed
    have inner := tokenizes_write value exact.2.1 (depth + 1)
      (endsNumber_writeMembers (depth + 1) members stops) behind
    have opened := @tokenizes_mark '{' _ _ _ rfl (fun _ => rfl)
      (tokenizes_newLine (depth + 1) (tokenizes_key key inner))
    simpa [write, tokens, List.append_assoc] using opened

/-- Written items are cut into their tokens and the commas in front of them. -/
theorem tokenizes_writeItems (items : List JsonValue) (exact : ItemsExact items) (depth : Nat)
    {text : List Char} {rest : List JsonToken} (ends : EndsNumber text)
    (after : Tokenizes text rest) :
    Tokenizes (writeItems depth items ++ text) (itemTokens items ++ rest) := by
  match items with
  | [] => exact after
  | item :: items =>
    have behind := tokenizes_writeItems items exact.2 depth ends after
    -- What follows the item must end a number, as the item may be one.
    have inner := tokenizes_write item exact.1 depth (endsNumber_writeItems depth items ends) behind
    have opened := @tokenizes_mark ',' _ _ _ rfl (fun _ => rfl) (tokenizes_newLine depth inner)
    simpa [writeItems, itemTokens, List.append_assoc] using opened

/-- Written members are cut into their tokens and the commas in front of them. -/
theorem tokenizes_writeMembers (members : List (Option String × JsonValue))
    (exact : MembersExact members) (depth : Nat) {text : List Char} {rest : List JsonToken}
    (ends : EndsNumber text) (after : Tokenizes text rest) :
    Tokenizes (writeMembers depth members ++ text) (memberTokens members ++ rest) := by
  match members with
  | [] => exact after
  | (key, value) :: members =>
    obtain ⟨key, rfl⟩ := Option.isSome_iff_exists.mp exact.1
    -- By recursion on the members: behind the value come the others, and in front of it its key.
    have behind := tokenizes_writeMembers members exact.2.2 depth ends after
    have inner := tokenizes_write value exact.2.1 depth
      (endsNumber_writeMembers depth members ends) behind
    have opened := @tokenizes_mark ',' _ _ _ rfl (fun _ => rfl)
      (tokenizes_newLine depth (tokenizes_key key inner))
    simpa [writeMembers, memberTokens, List.append_assoc] using opened

end

/-- A document that is written and ended by a new line is read back as the value it was made of. -/
theorem ofText?_indented {value : JsonValue} (exact : value.IsExact) :
    ofText? (value.indented ++ "\n").toList = some value := by
  -- Behind the value there is only the last line feed.
  have cut := tokenizes_write value exact 0 (endsNumber_cons [] (Or.inr rfl))
    (tokenizes_nil.gap rfl)
  rw [List.append_nil] at cut
  have tokenized : tokenize? (write 0 value ++ ['\n']) = some (tokens value) :=
    cut _ (Nat.le_refl _)
  have read := read?_tokens value [] (Nat.le_succ (2 * (tokens value).length))
  rw [List.append_nil] at read
  have text : (value.indented ++ "\n").toList = write 0 value ++ ['\n'] := by
    simp [indented]
  rw [text, ofText?, tokenized]
  simp [read]

end JsonValue

end IndexAudit
