import IndexAudit.Decimal.Binary64

/-! The fewest decimal digits that stand for a binary fraction and for no other one. -/

namespace IndexAudit

namespace Binary64

/-- The numbers that round to a magnitude: from `low` to `high`, in quarters of its last place. -/
structure RoundingInterval where
  low : Nat
  high : Nat
  /-- Whether the ends round to it too, as they do to an even significand. -/
  closed : Bool

/-- The numbers that round to the magnitude of a number. -/
def roundingInterval (number : Binary64) : RoundingInterval :=
  -- Below a power of two the numbers lie twice as close.
  let narrow := number.significand = powerOfTwo 52 ∧ number.exponent ≠ leastExponent
  { low := 4 * number.significand - if narrow then 1 else 2
    high := 4 * number.significand + 2
    closed := number.significand % 2 == 0 }

/-- Whether a decimal magnitude lies in a number's rounding interval. -/
def rounds (number : Binary64) (digits : Nat) (exponent : Int) : Bool :=
  let interval := number.roundingInterval
  let (up, down) := power 10 exponent
  let (twoUp, twoDown) := power 2 (number.exponent - 2)
  let value := digits * up * twoDown
  let unit := down * twoUp
  if interval.closed then interval.low * unit ≤ value && value ≤ interval.high * unit
  else interval.low * unit < value && value < interval.high * unit

/-- The digits on the decimal grid of an exponent that stand for a number, if any do. -/
def onGrid? (number : Binary64) (exponent : Int) : Option Nat :=
  let (top, bottom) := number.fraction
  let (up, down) := power 10 exponent
  let numerator := top * down
  let denominator := bottom * up
  let below := numerator / denominator
  let rest := numerator % denominator
  let hitBelow := number.rounds below exponent
  let hitAbove := number.rounds (below + 1) exponent
  -- Of two hits the nearer one counts, and of equally near ones the even one.
  if hitBelow && hitAbove then
    let nearBelow := 2 * rest < denominator || (2 * rest == denominator && below % 2 == 0)
    some (if nearBelow then below else below + 1)
  else if hitBelow then some below
  else if hitAbove then some (below + 1)
  else none

/-- The first of several grids, each ten times finer than the one before, that has a hit. -/
def firstGrid (number : Binary64) (exponent : Int) : Nat → Nat × Int
  | 0 => (number.onGrid? exponent |>.getD 0, exponent)
  | tries + 1 =>
    match number.onGrid? exponent with
    | some digits =>
      if digits = 0 then firstGrid number (exponent - 1) tries else (digits, exponent)
    | none => firstGrid number (exponent - 1) tries

/-- The fewest digits that stand for a number other than zero, and their exponent. -/
def shortest (number : Binary64) : Nat × Int :=
  let (top, bottom) := number.fraction
  -- A decimal exponent that is at least that of the number's first digit.
  let start : Int := ((top.log2 : Int) - bottom.log2) * 30103 / 100000 + 2
  firstGrid number start 20

/-- Digits with those at the end that are zero taken into the exponent. -/
def dropZeros (digits : Nat) (exponent : Int) : Nat → Nat × Int
  | 0 => (digits, exponent)
  | tries + 1 =>
    if digits % 10 = 0 ∧ digits ≠ 0 then dropZeros (digits / 10) (exponent + 1) tries
    else (digits, exponent)

/--
The text of a number in its fewest digits.

It is positional from a hundred-thousandth up to below ten to the sixteenth, and has a fraction
there; other numbers have an exponent.
-/
def text (number : Binary64) : List Char :=
  let sign := if number.negative then ['-'] else []
  if number.isZero then sign ++ "0.0".toList
  else
    let found := number.shortest
    let (digits, exponent) := dropZeros found.1 found.2 20
    let written := (Nat.toDigits 10 digits)
    let point : Int := written.length + exponent
    sign ++
      if 0 ≤ exponent ∧ point ≤ 16 then
        written ++ List.replicate exponent.toNat '0' ++ ['.', '0']
      else if 0 < point ∧ point ≤ 16 then
        written.take point.toNat ++ '.' :: written.drop point.toNat
      else if -5 < point ∧ point ≤ 0 then
        '0' :: '.' :: List.replicate (-point).toNat '0' ++ written
      else
        let power := (toString (point - 1)).toList
        match written with
        | first :: rest => first :: (if rest.isEmpty then [] else '.' :: rest) ++ 'e' :: power
        | [] => []

end Binary64

end IndexAudit
