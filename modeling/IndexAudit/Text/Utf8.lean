import IndexAudit.Decimal.Binary64

/-! Bytes read as UTF-8 text. -/

namespace IndexAudit

namespace Utf8

/-- Whether a byte may follow another one inside a character. -/
def continues (byte : UInt8) : Bool :=
  0x80 ≤ byte && byte ≤ 0xBF

/-- Whether a byte may come second in a character of three bytes with a given first one. -/
def secondOfThree (first second : UInt8) : Bool :=
  if first = 0xE0 then 0xA0 ≤ second && second ≤ 0xBF
  else if first = 0xED then 0x80 ≤ second && second ≤ 0x9F
  else continues second

/-- Whether a byte may come second in a character of four bytes with a given first one. -/
def secondOfFour (first second : UInt8) : Bool :=
  if first = 0xF0 then 0x90 ≤ second && second ≤ 0xBF
  else if first = 0xF4 then 0x80 ≤ second && second ≤ 0x8F
  else continues second

/-- The character made up of the payload bits of a first byte and of the bytes behind it. -/
def assemble (first : Nat) (more : List UInt8) : Char :=
  Char.ofNat (more.foldl (fun code byte => code * 64 + byte.toNat % 64) first)

/-- How many bytes a character takes by its first byte; other bytes begin no character. -/
def width (first : UInt8) : Nat :=
  if first < 0x80 then 1
  else if 0xC2 ≤ first && first ≤ 0xDF then 2
  else if 0xE0 ≤ first && first ≤ 0xEF then 3
  else if 0xF0 ≤ first && first ≤ 0xF4 then 4
  else 0

/-- How many of the bytes behind the first one go on with its character. -/
def following (first : UInt8) (rest : List UInt8) : Nat :=
  let allowed := match width first, rest with
    | 2, second :: _ => continues second
    | 3, second :: _ => secondOfThree first second
    | 4, second :: _ => secondOfFour first second
    | _, _ => false
  if allowed then 1 + (((rest.drop 1).takeWhile continues).take (width first - 2)).length else 0

/--
The characters of a text, with nothing in place of each stretch that is no character.

A stretch ends where the bytes stop going on with the character they began.
-/
def decode (bytes : List UInt8) : List (Option Char) :=
  match bytes with
  | [] => []
  | first :: rest =>
    let count := following first rest
    -- The first byte of a longer sequence begins with as many ones as the sequence has bytes.
    let payload := if count = 0 then 7 else 6 - count
    let char :=
      if width first = count + 1 then
        some (assemble (first.toNat % powerOfTwo payload) (rest.take count))
      else none
    char :: decode (rest.drop count)
termination_by bytes.length

/-- The text that bytes encode, if they encode one. -/
def text? (bytes : List UInt8) : Option (List Char) :=
  (decode bytes).mapM id

/-- The text that bytes encode, with a replacement character for each stretch that is none. -/
def lossyText (bytes : List UInt8) : List Char :=
  (decode bytes).map (·.getD (Char.ofNat 0xFFFD))

end Utf8

end IndexAudit
