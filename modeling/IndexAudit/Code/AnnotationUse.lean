import IndexAudit.Code.Bracket
import IndexAudit.Code.Literal
import IndexAudit.Text.Blank
import IndexAudit.Text.Numeric

/-! Annotations in front of declarations, and their arguments. -/

namespace IndexAudit

/-- An annotation of a declaration. -/
structure AnnotationUse where
  /-- The last part of its name, without package or use-site target. -/
  name : List Char
  /-- The text between its parentheses, if it has any. -/
  args : Option (List Char)
deriving Repr, DecidableEq

/-- Whether a character may stand in an identifier, in any script. -/
def isIdentifierChar (c : Char) : Bool :=
  isAlphanumeric c || c = '_'

/-- What follows the last dot or colon of a qualified name. -/
def simpleName (name : List Char) : List Char :=
  (name.reverse.takeWhile fun c => c != '.' && c != ':').reverse

namespace AnnotationUse

/-- The arguments of an annotation, one part each. -/
def parts (self : AnnotationUse) : List (List Glyph) :=
  match self.args with
  | none => []
  | some args => Glyph.splitTop ',' false (Glyph.ofCode args)

/-- The name that an argument is given by; a positional argument has none. -/
def argumentName (part : List Glyph) : Option (List Char) :=
  let text := trimStart (Glyph.shownText part)
  let name := text.takeWhile isIdentifierChar
  if name.isEmpty then none
  else
    match trimStart (text.dropWhile isIdentifierChar) with
    -- A comparison is part of a positional argument.
    | '=' :: '=' :: _ => none
    | '=' :: _ => some name
    | _ => none

/-- The first string literal of the argument of a given name. -/
def stringArgument (self : AnnotationUse) (name : List Char) : Option (List Char) := do
  let part ← self.parts.find? (argumentName · == some name)
  (Literal.values part).head?

/-- Whether an argument of a given name is set to `true`. -/
def flag (self : AnnotationUse) (name : List Char) : Bool :=
  self.parts.any fun part =>
    argumentName part == some name &&
      match (Glyph.shownText part).dropWhile (· != '=') with
      | _ :: value => trim value == ['t', 'r', 'u', 'e']
      | [] => false

/--
The main string value of an annotation.

It is what the literals of the positional argument, or of the one named `value`, make up together.
-/
def value (self : AnnotationUse) : Option (List Char) := do
  let part ← self.parts.find? fun part =>
    match argumentName part with
    | none => true
    | some name => name == ['v', 'a', 'l', 'u', 'e']
  match Literal.values part with
  | [] => none
  | literals => some literals.flatten

/-- Whether a character may stand in the name after an at sign, qualifier and target included. -/
def isNameChar (c : Char) : Bool :=
  c.isAlphanum || c = '_' || c = '.' || c = ':'

/-- Code without the spacing at its start. -/
def skipSpacing (code : List Glyph) : List Glyph :=
  code.dropWhile fun glyph => isSpacing glyph.shown

/-- The arguments that follow the name of an annotation, and what follows them. -/
def readArguments (code : List Glyph) : Option (List Char) × List Glyph :=
  match skipSpacing code with
  | [] => (none, code)
  | glyph :: rest =>
    if glyph.shown = '(' then
      match Glyph.closeIndex (glyph :: rest) with
      | some close => (some (Glyph.text (rest.take (close - 1))), rest.drop close)
      -- Parentheses that nothing closes hold all the rest.
      | none => (some (Glyph.text rest), [])
    else (none, code)

/-- Reading the arguments of an annotation leaves no more than there was. -/
theorem readArguments_length (code : List Glyph) :
    (readArguments code).2.length ≤ code.length := by
  -- Spacing is skipped in any case; what a bracket encloses is dropped or nothing is left.
  have spacing : (skipSpacing code).length ≤ code.length :=
    dropWhile_length _ _
  unfold readArguments
  split
  · exact Nat.le_refl _
  · rename_i glyph rest start
    rw [start, List.length_cons] at spacing
    split
    · split
      · simp only [List.length_drop]
        omega
      · exact Nat.zero_le _
    · exact Nat.le_refl _

/-- The annotation that code begins with, if it does, and what follows it. -/
def read? (code : List Glyph) : Option (AnnotationUse × List Glyph) :=
  match code with
  | [] => none
  | glyph :: rest =>
    let name := rest.takeWhile fun g => isNameChar g.shown
    if glyph.shown = '@' ∧ name ≠ [] then
      let arguments := readArguments (rest.drop name.length)
      some (⟨simpleName (Glyph.shownText name), arguments.1⟩, arguments.2)
    else none

/-- What follows an annotation is shorter than what it begins. -/
theorem read?_length {code after : List Glyph} {first : AnnotationUse}
    (found : read? code = some (first, after)) : after.length < code.length := by
  cases code with
  | nil => cases found
  | cons glyph rest =>
    simp only [read?] at found
    split at found
    · -- The at sign itself is gone, and reading the arguments takes nothing back.
      cases found
      have shorter := readArguments_length
        (rest.drop (rest.takeWhile fun g => isNameChar g.shown).length)
      rw [List.length_drop] at shorter
      simp only [List.length_cons]
      omega
    · cases found

/-- The annotations at the start of code, and what follows them. -/
def leading (code : List Glyph) : List AnnotationUse × List Glyph :=
  match found : read? (skipSpacing code) with
  | none => ([], skipSpacing code)
  | some (first, after) =>
    have : after.length < code.length :=
      Nat.lt_of_lt_of_le (read?_length found) (dropWhile_length _ _)
    let following := leading after
    (first :: following.1, following.2)
termination_by code.length

end AnnotationUse

end IndexAudit
