import IndexAudit.Decimal.Binary64
import IndexAudit.Text.Numeral
import IndexAudit.Timestamp
import IndexAudit.Toml.Value

/-!
Numbers and points in time in a TOML document.

A reader gives what follows a value of its kind, or nothing where there is no such value.
-/

namespace IndexAudit

namespace TomlNumber

/-- The digits at the start of a text, with single underscores between them left out. -/
def readDigits? (isDigit : Char → Bool) : List Char → Option (List Char × List Char)
  | [] => none
  | c :: rest =>
    if !isDigit c then none
    else if rest.head? = some '_' then
      (readDigits? isDigit (rest.drop 1)).map fun (digits, after) => (c :: digits, after)
    else if rest.head?.any isDigit then
      (readDigits? isDigit rest).map fun (digits, after) => (c :: digits, after)
    else some ([c], rest)
termination_by text => text.length

/-- A decimal integer without its sign; a zero stands alone. -/
def readWhole? (text : List Char) : Option (List Char × List Char) :=
  match text with
  | '0' :: rest => some (['0'], rest)
  | _ => readDigits? Char.isDigit text

/-- The sign at the start of a text, and what follows. -/
def readSign (text : List Char) : Bool × List Char :=
  match text with
  | '-' :: rest => (true, rest)
  | '+' :: rest => (false, rest)
  | _ => (false, text)

/-- What follows an integer in a base behind the mark of that base. -/
def skipInBase? (base : Nat) (text : List Char) : Option (List Char) := do
  let (digits, after) ← readDigits? (fun c => (Numeral.digit? base c).isSome) text
  if (← Numeral.natural? base digits) < powerOfTwo 63 then some after else none

/-- What follows an integer of at most 64 binary digits. -/
def skipInteger? (text : List Char) : Option (List Char) :=
  match text with
  | '0' :: 'x' :: rest => skipInBase? 16 rest
  | '0' :: 'o' :: rest => skipInBase? 8 rest
  | '0' :: 'b' :: rest => skipInBase? 2 rest
  | _ => do
    let (negative, body) := readSign text
    let (digits, after) ← readWhole? body
    -- The negative integers reach one further than the others.
    let bound := powerOfTwo 63 + if negative then 1 else 0
    if Numeral.decimal digits < bound then some after else none

/-- The digits behind a point, if one comes. -/
def readFraction? : List Char → Option (List Char × List Char)
  | '.' :: rest => readDigits? Char.isDigit rest
  | _ => none

/-- The exponent behind its letter, if one comes. -/
def readExponent? : List Char → Option (Int × List Char)
  | [] => none
  | c :: rest =>
    if c = 'e' ∨ c = 'E' then do
      let (negative, body) := readSign rest
      let (digits, after) ← readDigits? Char.isDigit body
      let size : Int := Numeral.decimal digits
      some (if negative then -size else size, after)
    else none

/-- Whether a decimal number is too great for a finite binary one. -/
def isTooGreat (digits : List Char) (exponent : Int) : Bool :=
  let number := Numeral.decimal digits
  -- Far from the limit the place of the first digit decides.
  let place : Int := digits.length + exponent
  number != 0 && 0 < place &&
    ((400 : Int) < exponent || (Binary64.ofDecimal? false number exponent).isNone)

/-- What follows a number with a fraction or an exponent; only a negative one may be too great. -/
def skipDecimal? (text : List Char) : Option (List Char) := do
  let (negative, body) := readSign text
  let (whole, behind) ← readWhole? body
  let (fraction, behind, fractional) :=
    match readFraction? behind with
    | some (digits, after) => (digits, after, true)
    | none => ([], behind, false)
  let (exponent, after, scaled) :=
    match readExponent? behind with
    | some (exponent, after) => (exponent, after, true)
    | none => (0, behind, false)
  if !(fractional || scaled) then none
  else if !negative && isTooGreat (whole ++ fraction) (exponent - fraction.length) then none
  else some after

/-- What follows the name of a number that is not finite. -/
def skipSpecial? (text : List Char) : Option (List Char) :=
  match (readSign text).2 with
  | 'i' :: 'n' :: 'f' :: rest => some rest
  | 'n' :: 'a' :: 'n' :: rest => some rest
  | _ => none

/-- The number that a fixed count of digits write, if it lies in a range, and what follows. -/
def readFixed? (count low high : Nat) (text : List Char) : Option (Nat × List Char) :=
  let (digits, rest) := text.splitAt count
  if digits.length = count ∧ digits.all Char.isDigit then
    let number := Numeral.decimal digits
    if low ≤ number ∧ number ≤ high then some (number, rest) else none
  else none

/-- What follows a mark. -/
def skipMark? (mark : Char) : List Char → Option (List Char)
  | [] => none
  | c :: rest => if c = mark then some rest else none

/-- What follows a date. -/
def skipDate? (text : List Char) : Option (List Char) := do
  let (year, text) ← readFixed? 4 0 9999 text
  let (month, text) ← readFixed? 2 1 12 (← skipMark? '-' text)
  let (_, text) ← readFixed? 2 1 (Timestamp.daysInMonth year month) (← skipMark? '-' text)
  some text

/-- What follows the fraction of a second, if one comes. -/
def skipSecondFraction (text : List Char) : List Char :=
  match text with
  | '.' :: c :: rest => if c.isDigit then rest.dropWhile Char.isDigit else text
  | _ => text

/-- What follows a time of day. -/
def skipTime? (text : List Char) : Option (List Char) := do
  let (_, text) ← readFixed? 2 0 23 text
  let (_, text) ← readFixed? 2 0 59 (← skipMark? ':' text)
  let (_, text) ← readFixed? 2 0 60 (← skipMark? ':' text)
  some (skipSecondFraction text)

/-- What follows an offset from universal time, if one comes. -/
def skipOffset? (text : List Char) : Option (List Char) :=
  match text with
  | 'Z' :: rest => some rest
  | 'z' :: rest => some rest
  | c :: rest =>
    if c = '+' ∨ c = '-' then do
      let (_, rest) ← readFixed? 2 0 23 rest
      let (_, rest) ← readFixed? 2 0 59 (← skipMark? ':' rest)
      some rest
    else some text
  | [] => some []

/-- What follows a time of day with an offset, behind the mark that parts it from its date. -/
def skipTimeOfDate? (text : List Char) : Option (List Char) :=
  match text with
  | [] => none
  | c :: rest =>
    if c = 'T' ∨ c = 't' ∨ c = ' ' then (skipTime? rest).bind skipOffset? else none

/-- What follows a date, a time of day or both. -/
def skipDateTime? (text : List Char) : Option (List Char) :=
  match skipDate? text with
  | some after => some ((skipTimeOfDate? after).getD after)
  | none => skipTime? text

/-- The number or point in time that a text begins with, and what follows. -/
def read? (text : List Char) : Option (TomlValue × List Char) :=
  match skipDateTime? text with
  | some after => some (.dateTime, after)
  | none =>
    (((skipDecimal? text).or (skipSpecial? text)).or (skipInteger? text)).map fun after =>
      (.number, after)

end TomlNumber

end IndexAudit
