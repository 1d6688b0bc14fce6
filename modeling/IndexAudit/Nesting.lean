/-! Matching brackets, and separators that stand outside all brackets, in lists of anything. -/

namespace IndexAudit

/-- What an element does to the nesting of the elements after it. -/
inductive Nest where
  /-- It begins a bracketed run. -/
  | opens
  /-- It ends a bracketed run. -/
  | closes
  /-- It leaves the nesting as it is. -/
  | level
deriving Repr, DecidableEq

/-- The part an element plays when a list is split; angles nest apart from the other brackets. -/
inductive Cut where
  /-- It acts on the brackets. -/
  | bracket (nest : Nest)
  /-- It acts on the angles. -/
  | angle (nest : Nest)
  /-- It separates two parts wherever nothing is open. -/
  | separator
deriving Repr, DecidableEq

namespace Nest

variable {α : Type}

/--
The position of the closing element that brings the nesting back to where it was.

`depth` counts the brackets already open.
There is none when a closing element comes while nothing is open, or when the list ends first.
-/
def closeIndex (nest : α → Nest) : Nat → List α → Option Nat
  | _, [] => none
  | depth, x :: rest =>
    match nest x, depth with
    | .opens, _ => (closeIndex nest (depth + 1) rest).map (· + 1)
    | .level, _ => (closeIndex nest depth rest).map (· + 1)
    | .closes, 0 => none
    | .closes, 1 => some 0
    | .closes, deeper + 2 => (closeIndex nest (deeper + 1) rest).map (· + 1)

/-- The nesting after an element, where a closing element without an open one counts for nothing. -/
def after (depth : Nat) : Nest → Nat
  | .opens => depth + 1
  | .closes => depth - 1
  | .level => depth

end Nest

namespace Cut

variable {α : Type}

/-- Puts an element at the front of the first part. -/
def extendFirst (x : α) : List (List α) → List (List α)
  | [] => [[x]]
  | part :: parts => (x :: part) :: parts

/-- Elements put at the front of the first part, in their order. -/
theorem foldr_extendFirst (part first : List α) (parts : List (List α)) :
    part.foldr extendFirst (first :: parts) = (part ++ first) :: parts := by
  -- The last element is put at the front first, so by induction the others come before it.
  induction part with
  | nil => rfl
  | cons x rest ih => simp [ih, extendFirst]

/--
The parts between the separators that stand outside all brackets and angles.

What an element does may depend on the one in front of it, which is why that one is handed along.
A list without such a separator is one part.
-/
def split (cut : Option α → α → Cut) : (depth angles : Nat) → Option α → List α → List (List α)
  | _, _, _, [] => [[]]
  | depth, angles, previous, x :: rest =>
    match cut previous x with
    | .bracket nest => extendFirst x (split cut (nest.after depth) angles (some x) rest)
    | .angle nest => extendFirst x (split cut depth (nest.after angles) (some x) rest)
    | .separator =>
      if depth = 0 ∧ angles = 0 then [] :: split cut depth angles (some x) rest
      else extendFirst x (split cut depth angles (some x) rest)

/-- Anything is divided into at least one part. -/
theorem split_ne_nil (cut : Option α → α → Cut) (depth angles : Nat) (previous : Option α)
    (list : List α) : split cut depth angles previous list ≠ [] := by
  cases list with
  | nil => simp [split]
  | cons x rest =>
    -- What goes on with a part extends the first of those behind, so there is one.
    have extended : ∀ parts : List (List α), extendFirst x parts ≠ [] := by
      intro parts
      cases parts <;> simp [extendFirst]
    rw [split]
    split
    · exact extended _
    · exact extended _
    · split
      · simp
      · exact extended _

end Cut

end IndexAudit
