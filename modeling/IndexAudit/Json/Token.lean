import IndexAudit.Json.Value
import IndexAudit.Text.Numeral

/-! The tokens of a JSON document. -/

namespace IndexAudit

/-- A token of a JSON document. -/
inductive JsonToken where
  | null
  | bool (value : Bool)
  | number (value : JsonNumber)
  | string (text : Option String)
  | openArray
  | closeArray
  | openObject
  | closeObject
  | comma
  | colon
deriving Repr, DecidableEq

/-- A piece of a string: a character as such, or the UTF-16 unit that an escape gives. -/
inductive JsonUnit where
  | char (c : Char)
  | escaped (unit : Nat)
deriving Repr, DecidableEq

namespace JsonUnit

/-- Whether a unit is the first half of a surrogate pair. -/
def isHigh (unit : Nat) : Bool :=
  0xD800 ≤ unit && unit < 0xDC00

/-- Whether a unit is the second half of a surrogate pair. -/
def isLow (unit : Nat) : Bool :=
  0xDC00 ≤ unit && unit < 0xE000

/-- The character of a surrogate pair. -/
def pair (high low : Nat) : Char :=
  Char.ofNat (0x10000 + (high - 0xD800) * 0x400 + (low - 0xDC00))

/-- The characters that units stand for, unless half of a pair stands alone among them. -/
def text? : List JsonUnit → Option (List Char)
  | [] => some []
  | .char c :: rest => (text? rest).map (c :: ·)
  | .escaped high :: .escaped low :: rest =>
    if isHigh high then
      if isLow low then (text? rest).map (pair high low :: ·) else none
    else if isLow high then none
    else (text? (.escaped low :: rest)).map (Char.ofNat high :: ·)
  | .escaped unit :: rest =>
    if isHigh unit || isLow unit then none else (text? rest).map (Char.ofNat unit :: ·)

end JsonUnit

namespace JsonToken

/-- The character that a letter behind a backslash stands for. -/
def escape? : Char → Option Char
  | '"' => some '"'
  | '\\' => some '\\'
  | '/' => some '/'
  | 'b' => some '\x08'
  | 'f' => some '\x0c'
  | 'n' => some '\n'
  | 'r' => some '\r'
  | 't' => some '\t'
  | _ => none

/-- The units of a string up to its closing quote, and what follows. -/
def readUnits? : List Char → Option (List JsonUnit × List Char)
  | [] => none
  | '"' :: rest => some ([], rest)
  | '\\' :: 'u' :: a :: b :: c :: d :: rest => do
    -- Units are put together to characters later, as a pair takes two escapes.
    let unit ← Numeral.natural? 16 [a, b, c, d]
    let (units, after) ← readUnits? rest
    some (.escaped unit :: units, after)
  | '\\' :: letter :: rest => do
    let c ← escape? letter
    let (units, after) ← readUnits? rest
    some (.char c :: units, after)
  | c :: rest =>
    if c.toNat < 0x20 then none
    else do
      let (units, after) ← readUnits? rest
      some (.char c :: units, after)

/-- The digits at the start of a text, and what follows. -/
def readDigits (text : List Char) : List Char × List Char :=
  text.span Char.isDigit

/-- The digits before the point of a number; no zero begins more than one. -/
def readWhole? (text : List Char) : Option (List Char × List Char) :=
  match readDigits text with
  | ([], _) => none
  | ('0' :: _ :: _, _) => none
  | found => some found

/-- The digits behind the point of a number, if it has one. -/
def readFraction? : List Char → Option (List Char × List Char)
  | '.' :: rest =>
    match readDigits rest with
    | ([], _) => none
    | found => some found
  | text => some ([], text)

/-- The digits of an exponent behind its sign, and what follows. -/
def readSigned? (text : List Char) : Option (Int × List Char) :=
  let (negative, text) :=
    match text with
    | '+' :: rest => (false, rest)
    | '-' :: rest => (true, rest)
    | _ => (false, text)
  match readDigits text with
  | ([], _) => none
  | (digits, after) =>
    let magnitude : Int := Numeral.decimal digits
    some (if negative then -magnitude else magnitude, after)

/-- The exponent of a number, if it has one. -/
def readExponent? : List Char → Option (Option Int × List Char)
  | [] => some (none, [])
  | c :: rest =>
    if c = 'e' ∨ c = 'E' then (readSigned? rest).map fun (exponent, after) => (some exponent, after)
    else some (none, c :: rest)

/-- A number without its sign. -/
def readNumber? (negative : Bool) (text : List Char) : Option (JsonToken × List Char) := do
  let (whole, text) ← readWhole? text
  let (fraction, text) ← readFraction? text
  let (exponent, text) ← readExponent? text
  some (.number ⟨negative, whole, fraction, exponent⟩, text)

/-- The token that a text begins with, and what follows. -/
def read? : List Char → Option (JsonToken × List Char)
  | '[' :: rest => some (.openArray, rest)
  | ']' :: rest => some (.closeArray, rest)
  | '{' :: rest => some (.openObject, rest)
  | '}' :: rest => some (.closeObject, rest)
  | ',' :: rest => some (.comma, rest)
  | ':' :: rest => some (.colon, rest)
  | 'n' :: 'u' :: 'l' :: 'l' :: rest => some (.null, rest)
  | 't' :: 'r' :: 'u' :: 'e' :: rest => some (.bool true, rest)
  | 'f' :: 'a' :: 'l' :: 's' :: 'e' :: rest => some (.bool false, rest)
  | '"' :: rest => (readUnits? rest).map fun (units, after) =>
    (.string ((JsonUnit.text? units).map String.ofList), after)
  | '-' :: rest => readNumber? true rest
  | text => readNumber? false text

/-- Whether a character is white space between tokens. -/
def isGap (c : Char) : Bool :=
  c = ' ' || c = '\t' || c = '\n' || c = '\r'

/-- The tokens of a text of at most a number of characters. -/
def tokenizeWithin? : Nat → List Char → Option (List JsonToken)
  | 0, text => if (text.dropWhile isGap).isEmpty then some [] else none
  | length + 1, text =>
    match text.dropWhile isGap with
    | [] => some []
    | text => do
      let (token, rest) ← read? text
      some (token :: (← tokenizeWithin? length rest))

/-- The tokens of a text, which are none if any of it is no token. -/
def tokenize? (text : List Char) : Option (List JsonToken) :=
  tokenizeWithin? text.length text

end JsonToken

end IndexAudit
