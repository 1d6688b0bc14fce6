import IndexAudit.Text.Blank
import IndexAudit.Text.Numeral

/-!
Points in time as texts: a date, a time of day and an offset from universal time.

White space may stand around the parts of a date or time, and years beyond four digits have a sign.
-/

namespace IndexAudit

/-- A date and time of day with an offset, as a text gives it. -/
structure Timestamp where
  year : Int
  month : Nat
  day : Nat
  hour : Nat
  minute : Nat
  second : Nat
  /-- How many seconds the time of day is ahead of universal time. -/
  offset : Int
deriving Repr, DecidableEq

namespace Timestamp

/-- The number at the start of a text, of one digit up to a number of them. -/
def readNumber? (most : Nat) (text : List Char) : Option (Nat × List Char) :=
  let digits := (text.take most).takeWhile Char.isDigit
  if digits.isEmpty then none
  else
    some (Numeral.decimal digits, text.drop digits.length)

/-- The year at the start of a text; one with a sign may have any number of digits. -/
def readYear? (text : List Char) : Option (Int × List Char) :=
  match trimStart text with
  | '-' :: rest => (readNumber? rest.length rest).map fun (year, after) => (-(year : Int), after)
  | '+' :: rest => (readNumber? rest.length rest).map fun (year, after) => ((year : Int), after)
  | rest => (readNumber? 4 rest).map fun (year, after) => ((year : Int), after)

/-- A number of one digit or two at the start of a text. -/
def readPart? (text : List Char) : Option (Nat × List Char) :=
  readNumber? 2 (trimStart text)

/-- What follows a mark at the start of a text. -/
def skip? (mark : Char) (text : List Char) : Option (List Char) :=
  match trimStart text with
  | c :: rest => if c = mark then some rest else none
  | [] => none

/-- What follows the fraction of a second at the start of a text, if there is one. -/
def skipFraction? : List Char → Option (List Char)
  | '.' :: rest =>
    if rest.head?.any Char.isDigit then some (rest.dropWhile Char.isDigit) else none
  | text => some text

/-- The number that two digits at the start of a text write. -/
def readTwoDigits? : List Char → Option (Nat × List Char)
  | a :: b :: rest => if a.isDigit && b.isDigit then readNumber? 2 (a :: b :: rest) else none
  | _ => none

/-- The hours and minutes of an offset behind its sign, in seconds. -/
def readHoursAndMinutes? (text : List Char) : Option (Nat × List Char) := do
  let (hours, rest) ← readTwoDigits? text
  let (minutes, after) ← readTwoDigits? (rest.dropWhile fun c => c = ':' || isBlank c)
  if minutes < 60 then some (hours * 3600 + minutes * 60, after) else none

/-- The offset at the start of a text. -/
def readOffset? (text : List Char) : Option (Int × List Char) :=
  if (text.take 3).map Char.toUpper = "UTC".toList then some (0, text.drop 3)
  else
    match text with
    | [] => none
    | c :: rest =>
      if c = 'Z' ∨ c = 'z' then some (0, rest)
      else if c = '+' then (readHoursAndMinutes? rest).map fun (size, after) => (size, after)
      -- A minus sign may be the typographic one.
      else if c = '-' ∨ c.toNat = 0x2212 then
        (readHoursAndMinutes? rest).map fun (size, after) => (-(size : Int), after)
      else none

/-- The parts that a text gives, whether or not there is such a point in time. -/
def ofText? (text : List Char) : Option Timestamp := do
  let (year, text) ← readYear? text
  let text ← skip? '-' text
  let (month, text) ← readPart? text
  let text ← skip? '-' text
  let (day, text) ← readPart? text
  let text ←
    match text with
    | 'T' :: rest | 't' :: rest | ' ' :: rest => some rest
    | _ => none
  let (hour, text) ← readPart? text
  let text ← skip? ':' text
  let (minute, text) ← readPart? text
  let text ← skip? ':' text
  let (second, text) ← readPart? text
  let text ← skipFraction? text
  -- White space may stand in front of the offset, and behind it.
  let (offset, text) ← readOffset? (trimStart text)
  if text.all isBlank then some ⟨year, month, day, hour, minute, second, offset⟩ else none

/-- Whether a year has a day more than others. -/
def isLeapYear (year : Int) : Bool :=
  year % 4 == 0 && (year % 100 != 0 || year % 400 == 0)

/-- How many days a month has; there is none of another number than one to twelve. -/
def daysInMonth (year : Int) (month : Nat) : Nat :=
  match month with
  | 1 | 3 | 5 | 7 | 8 | 10 | 12 => 31
  | 4 | 6 | 9 | 11 => 30
  | 2 => if isLeapYear year then 29 else 28
  | _ => 0

/-- The first and the last year that points in time are known for. -/
def firstYear : Int := -262143

/-- The last year that points in time are known for. -/
def lastYear : Int := 262142

/-- The seconds from the start of the day, in universal time, that may lie on another day. -/
def secondOfDay (stamp : Timestamp) : Int :=
  stamp.hour * 3600 + stamp.minute * 60 + min stamp.second 59 - stamp.offset

/-- Whether the day in universal time lies in the years that are known. -/
def isWithinYears (stamp : Timestamp) : Bool :=
  let startsAll := stamp.year == firstYear && stamp.month == 1 && stamp.day == 1
  let endsAll := stamp.year == lastYear && stamp.month == 12 && stamp.day == 31
  firstYear ≤ stamp.year && stamp.year ≤ lastYear &&
    !(startsAll && stamp.secondOfDay < 0) && !(endsAll && 86400 ≤ stamp.secondOfDay)

/-- Whether there is such a point in time; the second may be a leap second. -/
def isValid (stamp : Timestamp) : Bool :=
  1 ≤ stamp.day && stamp.day ≤ daysInMonth stamp.year stamp.month && stamp.hour < 24 &&
    stamp.minute < 60 && stamp.second ≤ 60 && stamp.offset.natAbs < 86400 && stamp.isWithinYears

/-- Whether a text gives a point in time. -/
def isTime (text : String) : Bool :=
  (ofText? text.toList).any isValid

end Timestamp

end IndexAudit
