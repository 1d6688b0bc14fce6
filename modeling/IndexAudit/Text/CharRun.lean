/-! Evenly spaced runs of characters, the rows of which the character tables are made. -/

namespace IndexAudit

/-- The code points from `first` to `last` that lie a multiple of `stride` above `first`. -/
structure CharRun where
  first : Nat
  last : Nat
  stride : Nat
deriving Repr, DecidableEq

namespace CharRun

/-- Whether a run holds a code point. -/
def holds (run : CharRun) (code : Nat) : Bool :=
  run.first ≤ code && code ≤ run.last && (code - run.first) % run.stride == 0

/-- Whether one run of an ordered table holds a code point. -/
def covers (runs : List CharRun) (code : Nat) : Bool :=
  runs.any (·.holds code)

end CharRun

/-- What is asked of the characters of a text is decided along the text, not over all characters. -/
instance (priority := high) decidableForallMemText (p : Char → Prop) [DecidablePred p]
    (text : List Char) : Decidable (∀ c ∈ text, p c) :=
  List.decidableBAll p text

/-- What is asked of a character that may be missing is decided by that character. -/
instance (priority := high) decidableForallMemOption (p : Char → Prop) [DecidablePred p]
    (found : Option Char) : Decidable (∀ c ∈ found, p c) :=
  Option.decidableForallMem found

end IndexAudit
