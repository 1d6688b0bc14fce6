import IndexAudit.Decimal.Binary64
import IndexAudit.Text.Numeral
import IndexAudit.Yaml.Value

/-! What an unquoted scalar stands for: null, a truth value, a number or a text. -/

namespace IndexAudit

namespace YamlScalar

/-- The digits of a number without its sign, and the base that they are written in. -/
def digitsInBase (text : List Char) : List (Nat × List Char) :=
  match text with
  | '0' :: 'x' :: rest => [(16, rest), (10, text)]
  | '0' :: 'o' :: rest => [(8, rest), (10, text)]
  | '0' :: 'b' :: rest => [(2, rest), (10, text)]
  | _ => [(10, text)]

/-- The number that digits with a mark of their base, or decimal ones, stand for. -/
def magnitude? (text : List Char) : Option Nat :=
  (digitsInBase text).findSome? fun (base, digits) => Numeral.natural? base digits

/-- Whether a text is a decimal integer but for a zero in front, which makes it a text. -/
def hasLeadingZero (text : List Char) : Bool :=
  let digits := match text with
    | '+' :: rest => rest
    | '-' :: rest => rest
    | _ => text
  match digits with
  | '0' :: d :: rest => (d :: rest).all Char.isDigit
  | _ => false

/-- The integer that a text stands for. -/
def integer? (text : List Char) : Option Int :=
  if hasLeadingZero text then none
  else
    match text with
    | '-' :: rest => (magnitude? rest).map fun value => -(value : Int)
    | '+' :: rest => (magnitude? rest).map fun value => (value : Int)
    | _ => (magnitude? text).map fun value => (value : Int)

/-- The greatest integer that is read as one, though documents may hold only smaller ones. -/
def isWide (value : Int) : Bool :=
  -(powerOfTwo 127 : Int) ≤ value && value < powerOfTwo 128

/-- Whether a document may hold an integer. -/
def isHeld (value : Int) : Bool :=
  -(powerOfTwo 63 : Int) ≤ value && value < powerOfTwo 64

/-- The exponent at the end of a decimal number. -/
def exponent? : List Char → Option Int
  | [] => some 0
  | e :: rest =>
    if e = 'e' ∨ e = 'E' then
      match rest with
      | '-' :: digits => (Numeral.natural? 10 digits).map fun value => -(value : Int)
      | '+' :: digits => (Numeral.natural? 10 digits).map fun value => (value : Int)
      | digits => (Numeral.natural? 10 digits).map fun value => (value : Int)
    else none

/-- An exponent brought so near to zero that the number with it can still be written out. -/
def boundedExponent (digits : Nat) (exponent : Int) : Int :=
  if digits = 0 then 0 else max (-100000) (min exponent 100000)

/-- The finite number that a decimal text without special names stands for. -/
def finite? (text : List Char) : Option Binary64 := do
  let (negative, body) := match text with
    | '-' :: rest => (true, rest)
    | '+' :: rest => (false, rest)
    | _ => (false, text)
  let whole := body.takeWhile Char.isDigit
  let behind := body.dropWhile Char.isDigit
  let (fraction, ending) := match behind with
    | '.' :: rest => (rest.takeWhile Char.isDigit, rest.dropWhile Char.isDigit)
    | _ => ([], behind)
  let digits ← Numeral.natural? 10 (whole ++ fraction)
  let exponent ← exponent? ending
  Binary64.ofDecimal? negative digits
    (boundedExponent digits (exponent - fraction.length))

/-- The number with a fraction or exponent, or the special number, that a text stands for. -/
def float? (text : List Char) : Option YamlNumber :=
  let plain := match text with
    | '+' :: '+' :: _ => none
    | '+' :: '-' :: _ => none
    | '+' :: rest => some rest
    | _ => some text
  plain.bind fun body =>
    if [".inf", ".Inf", ".INF"].contains (String.ofList body) then some (.infinite false)
    else if ["-.inf", "-.Inf", "-.INF"].contains (String.ofList text) then some (.infinite true)
    else if [".nan", ".NaN", ".NAN"].contains (String.ofList text) then some .notANumber
    else (finite? body).map .finite

/-- The truth value that a text stands for. -/
def bool? (text : String) : Option Bool :=
  if ["true", "True", "TRUE"].contains text then some true
  else if ["false", "False", "FALSE"].contains text then some false
  else none

/-- Whether a text stands for null. -/
def isNull (text : String) : Bool :=
  ["null", "Null", "NULL", "~"].contains text

/-- The value of an integer, which fails where a document may not hold it. -/
def held? (value : Int) : Option YamlValue :=
  if isHeld value then some (.number (.integer value)) else none

/-- The value of an unquoted scalar; an integer that no document may hold makes it malformed. -/
def plain? (text : String) : Option YamlValue :=
  if text.isEmpty || isNull text then some .null
  else
    match bool? text, (integer? text.toList).filter isWide with
    | some value, _ => some (.bool value)
    | none, some value => held? value
    | none, none =>
      -- Digits behind a zero would be read as a number below, but are a text.
      if hasLeadingZero text.toList then some (.string text)
      else
        match float? text.toList with
        | some value => some (.number value)
        | none => some (.string text)

/-- The value of a scalar under one of the tags that name a kind of value; others name a text. -/
def ofKind? (kind text : String) : Option YamlValue :=
  if kind = "tag:yaml.org,2002:bool" then (bool? text).map .bool
  else if kind = "tag:yaml.org,2002:int" then ((integer? text.toList).filter isWide).bind held?
  else if kind = "tag:yaml.org,2002:float" then (float? text.toList).map .number
  else if kind = "tag:yaml.org,2002:null" then if isNull text then some .null else none
  else some (.string text)

end YamlScalar

end IndexAudit
