/-! Binary fractions of 53 digits, as numbers that are no integers are stored. -/

namespace IndexAudit

/-- Two to the power of a number: how many numbers have that many binary digits. -/
def powerOfTwo (digits : Nat) : Nat :=
  Nat.pow 2 digits

/--
A finite binary fraction, `significand` times two to the power of `exponent`.

Significands have 53 binary digits, except those of the least exponent, which may have fewer.
-/
structure Binary64 where
  negative : Bool
  significand : Nat
  exponent : Int
deriving Repr, DecidableEq

namespace Binary64

/-- The least exponent, that of numbers too small for 53 digits. -/
def leastExponent : Int := -1074

/-- The greatest exponent of a finite number. -/
def greatestExponent : Int := 971

/-- A natural number to the power of an integer, as numerator and denominator. -/
def power (base : Nat) (exponent : Int) : Nat × Nat :=
  (Nat.pow base exponent.toNat, Nat.pow base (-exponent).toNat)

/-- A quotient rounded to the nearest integer, a half to the even neighbour. -/
def roundHalfEven (numerator denominator : Nat) : Nat :=
  let quotient := numerator / denominator
  let rest := numerator % denominator
  if denominator < 2 * rest || (2 * rest == denominator && quotient % 2 == 1) then quotient + 1
  else quotient

/-- The magnitude nearest to a quotient, unless that is too great to be finite. -/
def nearest? (numerator denominator : Nat) : Option (Nat × Int) :=
  if numerator = 0 then some (0, leastExponent)
  else
    let estimate : Int := (numerator.log2 : Int) - denominator.log2 - 52
    let scaled (exponent : Int) : Nat × Nat :=
      let (up, down) := power 2 exponent
      (numerator * down, denominator * up)
    let full := scaled estimate
    -- The estimate is right or one too great.
    let wanted := if full.1 / full.2 < powerOfTwo 52 then estimate - 1 else estimate
    let exponent := max wanted leastExponent
    let (above, below) := scaled exponent
    let rounded := roundHalfEven above below
    -- Rounding may carry into one more digit.
    let (significand, exponent) :=
      if rounded = powerOfTwo 53 then (powerOfTwo 52, exponent + 1) else (rounded, exponent)
    if greatestExponent < exponent then none else some (significand, exponent)

/-- The finite number nearest to a decimal one, unless that is too great. -/
def ofDecimal? (negative : Bool) (digits : Nat) (exponent : Int) : Option Binary64 :=
  let (up, down) := power 10 exponent
  (nearest? (digits * up) down).map fun (significand, exponent) =>
    ⟨negative, significand, exponent⟩

/-- The magnitude of a number as numerator and denominator. -/
def fraction (number : Binary64) : Nat × Nat :=
  let (up, down) := power 2 number.exponent
  (number.significand * up, down)

/-- Whether a number is zero, of whichever sign. -/
def isZero (number : Binary64) : Bool :=
  number.significand == 0

/-- Whether two numbers are equal; the zeros of both signs are. -/
def same (a b : Binary64) : Bool :=
  (a.isZero && b.isZero) || a == b

end Binary64

end IndexAudit
