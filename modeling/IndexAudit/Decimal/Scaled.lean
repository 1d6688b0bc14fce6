import IndexAudit.Decimal.Binary64

/-!
A magnitude scaled by a power of ten with a rounding at each step.

The result may miss the nearest number by a digit, as it does for readers that scale in this way.
-/

namespace IndexAudit

namespace Binary64

/-- The greatest power of ten that is a finite number. -/
def greatestPowerOfTen : Nat := 308

/-- The number nearest to a quotient, unless that is too great to be finite. -/
def ofQuotient? (negative : Bool) (numerator denominator : Nat) : Option Binary64 :=
  (nearest? numerator denominator).map fun (significand, exponent) =>
    ⟨negative, significand, exponent⟩

/-- A number times a power of ten, each rounded. -/
def timesPower? (number : Binary64) (exponent : Nat) : Option Binary64 := do
  let power ← ofQuotient? false (Nat.pow 10 exponent) 1
  let (a, b) := number.fraction
  let (c, d) := power.fraction
  ofQuotient? number.negative (a * c) (b * d)

/-- A number divided by a power of ten, each rounded. -/
def overPower? (number : Binary64) (exponent : Nat) : Option Binary64 := do
  let power ← ofQuotient? false (Nat.pow 10 exponent) 1
  let (a, b) := number.fraction
  let (c, d) := power.fraction
  ofQuotient? number.negative (a * d) (b * c)

/-- A number divided by a power of ten, in as many steps as finite powers need. -/
def scaleDown? (number : Binary64) (exponent : Nat) : Option Binary64 :=
  if exponent ≤ greatestPowerOfTen then number.overPower? exponent
  else if number.isZero then some number
  else do scaleDown? (← number.overPower? greatestPowerOfTen) (exponent - greatestPowerOfTen)
termination_by exponent
decreasing_by
  have : greatestPowerOfTen = 308 := rfl
  omega

/-- An integer scaled by a power of ten, unless the result is too great to be finite. -/
def scaled? (negative : Bool) (integer : Nat) (exponent : Int) : Option Binary64 := do
  let number ← ofQuotient? negative integer 1
  if exponent < 0 then number.scaleDown? exponent.natAbs
  else if exponent ≤ greatestPowerOfTen then number.timesPower? exponent.toNat
  else if number.isZero then some number
  else none

end Binary64

end IndexAudit
