/-! Natural numbers written in digits. -/

namespace IndexAudit

namespace Numeral

/-- The value of a digit in a base up to sixteen, if it is one there. -/
def digit? (base : Nat) (c : Char) : Option Nat :=
  let value :=
    if c.isDigit then some (c.toNat - '0'.toNat)
    else if 'a' ≤ c ∧ c ≤ 'f' then some (c.toNat - 'a'.toNat + 10)
    else if 'A' ≤ c ∧ c ≤ 'F' then some (c.toNat - 'A'.toNat + 10)
    else none
  value.filter (· < base)

/-- The number that one or more digits in a base stand for. -/
def natural? (base : Nat) (digits : List Char) : Option Nat :=
  if digits.isEmpty then none
  else digits.foldlM (fun value c => (digit? base c).map (value * base + ·)) 0

/-- The number that decimal digits stand for; characters that are no digits stand for none. -/
def decimal (digits : List Char) : Nat :=
  (natural? 10 digits).getD 0

/-- The character of a digit below sixteen. -/
def digitChar (value : Nat) : Char :=
  "0123456789abcdef".toList.getD value '0'

/-- The character of the code point that hexadecimal digits write. -/
def character? (digits : List Char) : Option Char := do
  let code ← natural? 16 digits
  if code.isValidChar then some (Char.ofNat code) else none

end Numeral

end IndexAudit
