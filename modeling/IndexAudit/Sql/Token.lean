import IndexAudit.Nesting
import IndexAudit.Text.Blank
import IndexAudit.Text.Numeric

/-! The tokens of SQL and of the entity query language, and how each one is written. -/

namespace IndexAudit

/-- A lexical token of a statement. -/
inductive SqlToken where
  /-- A bare identifier or keyword. -/
  | word (text : String)
  /-- An identifier in quotes, given without them. -/
  | quoted (text : String)
  /-- A numeric literal. -/
  | number
  /-- A string literal. -/
  | string
  /-- A bind parameter, by name or by position. -/
  | parameter
  /-- An operator of one or two characters. -/
  | operator (text : String)
  /-- One of the characters that structure a statement. -/
  | punctuation (c : Char)
deriving Repr, DecidableEq

/-- Two texts with the ASCII letters of both in one case. -/
def eqIgnoringAsciiCase (a b : String) : Bool :=
  a.toList.map Char.toLower == b.toList.map Char.toLower

namespace SqlToken

/-- Whether a token is a keyword, in any letter case. -/
def isKeyword (keyword : String) : SqlToken → Bool
  | .word text => eqIgnoringAsciiCase text keyword
  | _ => false

/-- Whether a token is one of several keywords, in any letter case. -/
def isOneOf (keywords : List String) (token : SqlToken) : Bool :=
  keywords.any (token.isKeyword ·)

/-- Whether a token list begins with a keyword. -/
def startsWith (keyword : String) (tokens : List SqlToken) : Bool :=
  tokens.head?.any (·.isKeyword keyword)

/-- A token list without a keyword at its start. -/
def skip (keyword : String) (tokens : List SqlToken) : List SqlToken :=
  if startsWith keyword tokens then tokens.drop 1 else tokens

/-- Skipping a keyword never makes a token list longer. -/
theorem skip_length (keyword : String) (tokens : List SqlToken) :
    (skip keyword tokens).length ≤ tokens.length := by
  -- Either one token is dropped or none.
  unfold skip
  split
  · rw [List.length_drop]
    exact Nat.sub_le _ _
  · exact Nat.le_refl _

/-- The identifier that a token names, quoted or not. -/
def ident? : SqlToken → Option String
  | .word text => some text
  | .quoted text => some text
  | _ => none

/-- What a token does to the nesting of round brackets. -/
def nest : SqlToken → Nest
  | .punctuation '(' => .opens
  | .punctuation ')' => .closes
  | _ => .level

/-- The position, from the first token on, of the bracket that closes the first one opened. -/
def closeIndex (tokens : List SqlToken) : Option Nat :=
  Nest.closeIndex nest 0 tokens

/-- The part that a token plays when a list is divided at its commas. -/
def cutAtComma (_ : Option SqlToken) (token : SqlToken) : Cut :=
  if token = .punctuation ',' then .separator else .bracket token.nest

/-- The parts of a token list between the commas outside all brackets. -/
def splitCommas (tokens : List SqlToken) : List (List SqlToken) :=
  Cut.split cutAtComma 0 0 none tokens

/-- The statements of a token list, which semicolons separate; empty ones are left out. -/
def statements (tokens : List SqlToken) : List (List SqlToken) :=
  (tokens.splitOn (.punctuation ';')).filter (!·.isEmpty)

end SqlToken

namespace SqlToken

/-- Whether an identifier may begin with a character. -/
def startsWord (c : Char) : Bool :=
  isAlphabetic c || c = '_'

/-- Whether an identifier may go on with a character. -/
def continuesWord (c : Char) : Bool :=
  isAlphanumeric c || c = '_' || c = '$'

/-- The operators that are written with two characters. -/
def pairOperators : List (Char × Char) :=
  [('<', '='), ('>', '='), ('<', '>'), ('!', '='), ('=', '='), ('|', '|'), (':', ':')]

/-- What follows a block comment that has been entered. -/
def afterComment : List Char → List Char
  | '*' :: '/' :: rest => rest
  | _ :: rest => afterComment rest
  | [] => []

/-- What follows a string literal that has been entered; a doubled quote belongs to it. -/
def afterString : List Char → List Char
  | '\'' :: '\'' :: rest => afterString rest
  | '\'' :: rest => rest
  | _ :: rest => afterString rest
  | [] => []

/-- The operator that begins with a character, and what follows it. -/
def readOperator (c : Char) (rest : List Char) : SqlToken × List Char :=
  match rest with
  | d :: after =>
    if (c, d) ∈ pairOperators then (.operator (String.ofList [c, d]), after)
    else (.operator (String.ofList [c]), rest)
  | [] => (.operator (String.ofList [c]), [])

/-- The parameter, punctuation or operator that begins with a character, and what follows it. -/
def readSymbol (c : Char) (rest : List Char) : SqlToken × List Char :=
  -- In front of a word a colon makes a parameter of it; two colons are the operator of a cast.
  if c = ':' ∧ rest.head?.any startsWord then (.parameter, rest.dropWhile continuesWord)
  else if c = '?' ∨ (c = '$' ∧ rest.head?.any Char.isDigit) then
    (.parameter, rest.dropWhile Char.isDigit)
  else if c = '(' ∨ c = ')' ∨ c = ',' ∨ c = '.' ∨ c = ';' then (.punctuation c, rest)
  else readOperator c rest

/-- The token that begins with a character that is no white space, and what follows it. -/
def readToken (c : Char) (rest : List Char) : SqlToken × List Char :=
  if c = '\'' then (.string, afterString rest)
  else if c = '"' ∨ c = '\x60' then
    (.quoted (String.ofList (rest.takeWhile (· != c))), (rest.dropWhile (· != c)).drop 1)
  -- A number takes letters along, so neither an exponent nor a suffix is a word of its own.
  else if c.isDigit then (.number, rest.dropWhile fun d => d.isAlphanum || d = '.')
  else if startsWord c then
    (.word (String.ofList (c :: rest.takeWhile continuesWord)), rest.dropWhile continuesWord)
  else readSymbol c rest

/--
The token that begins with a character, if one does, and what follows it.

White space and comments begin no token.
A literal or comment that is not closed runs to the end of the text.
-/
def read (c : Char) (rest : List Char) : Option SqlToken × List Char :=
  if isBlank c then (none, rest)
  -- The line break behind a comment is left, and is white space.
  else if c = '-' ∧ rest.head? = some '-' then (none, rest.dropWhile (· != '\n'))
  else if c = '/' ∧ rest.head? = some '*' then (none, afterComment (rest.drop 1))
  else
    let token := readToken c rest
    (some token.1, token.2)

/-- What follows a comment is no longer than what it began with. -/
theorem afterComment_length (text : List Char) : (afterComment text).length ≤ text.length := by
  -- Each step of the scan passes a character at least, or ends it.
  fun_induction afterComment text <;> simp only [List.length_cons, List.length_nil] <;> omega

/-- What follows a string literal is no longer than what it began with. -/
theorem afterString_length (text : List Char) : (afterString text).length ≤ text.length := by
  -- Each step of the scan passes a character at least, or ends it.
  fun_induction afterString text <;> simp only [List.length_cons, List.length_nil] <;> omega

/-- Reading an operator leaves no more than followed its first character. -/
theorem readOperator_length (c : Char) (rest : List Char) :
    (readOperator c rest).2.length ≤ rest.length := by
  -- A pair takes one more character, and a single sign none.
  unfold readOperator
  split
  · split <;> simp
  · simp

/-- Reading a symbol leaves no more than followed its first character. -/
theorem readSymbol_length (c : Char) (rest : List Char) :
    (readSymbol c rest).2.length ≤ rest.length := by
  -- Each kind of symbol drops some characters or none.
  unfold readSymbol
  split
  · exact dropWhile_length _ _
  split
  · exact dropWhile_length _ _
  split
  · exact Nat.le_refl _
  · exact readOperator_length c rest

/-- Reading a token leaves no more than followed its first character. -/
theorem readToken_length (c : Char) (rest : List Char) :
    (readToken c rest).2.length ≤ rest.length := by
  -- Each kind of token drops some characters or none.
  unfold readToken
  split
  · exact afterString_length _
  split
  · rw [List.length_drop]
    exact Nat.le_trans (Nat.sub_le _ _) (dropWhile_length _ _)
  split
  · exact dropWhile_length _ _
  split
  · exact dropWhile_length _ _
  · exact readSymbol_length c rest

/-- Reading on leaves no more than followed the character it began with. -/
theorem read_length (c : Char) (rest : List Char) : (read c rest).2.length ≤ rest.length := by
  -- White space takes no more, comments drop what belongs to them, and the rest is a token.
  unfold read
  split
  · exact Nat.le_refl _
  split
  · exact dropWhile_length _ _
  split
  · have shorter := afterComment_length (rest.drop 1)
    rw [List.length_drop] at shorter
    exact Nat.le_trans shorter (Nat.sub_le _ _)
  · exact readToken_length c rest

/-- The tokens of a text; comments are left out. -/
def tokenize (text : List Char) : List SqlToken :=
  match text with
  | [] => []
  | c :: rest =>
    have := read_length c rest
    (read c rest).1.toList ++ tokenize (read c rest).2
termination_by text.length

/-- The tokens of a string; comments are left out. -/
def ofString (text : String) : List SqlToken :=
  tokenize text.toList

/-- One way to write a token; an identifier gets a quote that it does not contain. -/
def render : SqlToken → List Char
  | .word text => text.toList
  | .quoted text =>
    -- No name that is read holds both kinds: it ends at the first quote of the kind it began with.
    let quote := if '"' ∈ text.toList then '\x60' else '"'
    quote :: text.toList ++ [quote]
  | .number => ['0']
  | .string => ['\'', '\'']
  | .parameter => ['?']
  | .operator text => text.toList
  | .punctuation c => [c]

/-- The tokens of a list, with one space between two of them. -/
def renderAll (tokens : List SqlToken) : List Char :=
  [' '].intercalate (tokens.map render)

end SqlToken

end IndexAudit
