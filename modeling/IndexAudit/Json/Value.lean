import IndexAudit.Decimal.Binary64
import IndexAudit.Decimal.Scaled

/-!
JSON values as documents write them.

What a number comes to, and whether a string is one of characters, is settled only for the parts
of a document that are made use of.
-/

namespace IndexAudit

/-- A number as a document writes it. -/
structure JsonNumber where
  negative : Bool
  /-- The digits before the point. -/
  whole : List Char
  /-- The digits behind the point; there are some if there is a point. -/
  fraction : List Char
  exponent : Option Int
deriving Repr, DecidableEq

/--
A JSON value.

A string in which half of a surrogate pair stands alone has no text. Members stand in the order of
the document, with repeats.
-/
inductive JsonValue where
  | null
  | bool (value : Bool)
  | number (value : JsonNumber)
  | string (text : Option String)
  | array (items : List JsonValue)
  | object (members : List (Option String × JsonValue))
deriving Repr

namespace JsonNumber

/-- The greatest number that 64 binary digits hold. -/
def greatestWord : Nat := powerOfTwo 64 - 1

/-- The number that digits continue another one to, as far as it fits, and how many are used. -/
def absorb (number : Nat) : List Char → Nat × Nat
  | [] => (number, 0)
  | digit :: rest =>
    let next := number * 10 + (digit.toNat - '0'.toNat)
    if next ≤ greatestWord then
      let (final, used) := absorb next rest
      (final, used + 1)
    else (number, 0)

/-- The integer that a number without a point and an exponent is, if it fits 64 binary digits. -/
def integer? (number : JsonNumber) : Option Int :=
  if !number.fraction.isEmpty || number.exponent.isSome then none
  else
    let (magnitude, used) := absorb 0 number.whole
    if used < number.whole.length then none
    else if !number.negative then some magnitude
    else if 0 < magnitude ∧ magnitude ≤ powerOfTwo 63 then some (-magnitude)
    else none

/-- The binary fraction that a number is read as, unless it is too great. -/
def binary? (number : JsonNumber) : Option Binary64 :=
  let (whole, wholeUsed) := absorb 0 number.whole
  let (digits, fractionUsed) := absorb whole number.fraction
  let skipped : Int := number.whole.length - wholeUsed
  Binary64.scaled? number.negative digits (number.exponent.getD 0 + skipped - fractionUsed)

end JsonNumber

namespace JsonValue

mutual

/-- How deep collections lie in each other. -/
def depth : JsonValue → Nat
  | .array items => depthOfItems items + 1
  | .object members => depthOfMembers members + 1
  | _ => 0

/-- The depth of the deepest item. -/
def depthOfItems : List JsonValue → Nat
  | [] => 0
  | item :: rest => max (depth item) (depthOfItems rest)

/-- The depth of the deepest member. -/
def depthOfMembers : List (Option String × JsonValue) → Nat
  | [] => 0
  | (_, value) :: rest => max (depth value) (depthOfMembers rest)

end

end JsonValue

end IndexAudit
