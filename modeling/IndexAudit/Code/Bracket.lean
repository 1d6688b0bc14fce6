import IndexAudit.Code.Glyph
import IndexAudit.Nesting

/-! The brackets of code, and the places where code may be divided. -/

namespace IndexAudit

namespace Glyph

/-- What a character does to the nesting of round, square and curly brackets. -/
def bracketOf (c : Char) : Nest :=
  if c = '(' ∨ c = '[' ∨ c = '{' then .opens
  else if c = ')' ∨ c = ']' ∨ c = '}' then .closes
  else .level

/-- The position, from the first element on, of the bracket that closes the first one opened. -/
def closeIndex (code : List Glyph) : Option Nat :=
  Nest.closeIndex (fun glyph => bracketOf glyph.shown) 0 code

/--
The part that a character plays when code is divided at a separator.

With `angled` set, angles nest too, unless the closing one is the head of an arrow.
Brackets never separate.
-/
def cutAt (separator : Char) (angled : Bool) (previous : Option Glyph) (glyph : Glyph) : Cut :=
  let c := glyph.shown
  match bracketOf c with
  | .opens => .bracket .opens
  | .closes => .bracket .closes
  | .level =>
    if angled ∧ c = '<' then .angle .opens
    else if angled ∧ c = '>' ∧ previous.any (·.shown != '-') then .angle .closes
    else if c = separator then .separator
    else .bracket .level

/-- The parts of code between the separators outside all brackets. -/
def splitTop (separator : Char) (angled : Bool) (code : List Glyph) : List (List Glyph) :=
  Cut.split (cutAt separator angled) 0 0 none code

end Glyph

end IndexAudit
