import IndexAudit.Code.AnnotationUse
import IndexAudit.Text.Search

/-! Searches in code for keywords, names and annotations of a given kind. -/

namespace IndexAudit

/-- A keyword with a name behind it, such as a class declaration. -/
structure Declaration where
  /-- The code in front of the keyword. -/
  before : List Glyph
  name : List Char
  /-- The code behind the name. -/
  after : List Glyph
deriving Repr, DecidableEq

/-- The code behind a literal text, if code begins with that text. -/
def afterText? : List Char → List Glyph → Option (List Glyph)
  | [], code => some code
  | _ :: _, [] => none
  | c :: text, glyph :: code => if glyph.shown = c then afterText? text code else none

/-- The name at the start of code, and what follows it. -/
def readName? (code : List Glyph) : Option (List Char × List Glyph) :=
  let name := (Glyph.shownText code).takeWhile isWordChar
  if name.head?.any isNameStart then some (name, code.drop name.length) else none

/-- The name behind a keyword at the start of code, and what follows the name. -/
def readDeclared? (keyword : List Char) (code : List Glyph) : Option (List Char × List Glyph) := do
  let rest ← afterText? keyword code
  let spaced := rest.dropWhile fun glyph => isAsciiBlank glyph.shown
  if spaced.length < rest.length then readName? spaced else none

namespace Declaration

/--
The first of several keywords that stands as a word of its own with a name behind it.

`previous` is the character in front of the code.
-/
def find (keywords : List (List Char)) (previous : Option Char) : List Glyph → Option Declaration
  | [] => none
  | glyph :: rest =>
    let here :=
      -- Behind a character of a word, the keyword is only the end of a longer word.
      if previous.any isWordChar then none
      else keywords.findSome? (readDeclared? · (glyph :: rest))
    match here with
    | some (name, after) => some ⟨[], name, after⟩
    | none =>
      (find keywords (some glyph.shown) rest).map fun later =>
        { later with before := glyph :: later.before }

end Declaration

namespace AnnotationUse

/-- What follows a word at the start of code, if no longer word begins there. -/
def afterWord? (word : List Char) (code : List Glyph) : Option (List Glyph) := do
  let rest ← afterText? word code
  if (rest.head?.map (·.shown)).any isWordChar then none else some rest

/-- What follows the last place in a dotted name where a word stands behind a dot. -/
def afterLastDotted? (word : List Char) : List Glyph → Option (List Glyph)
  | [] => none
  | glyph :: rest =>
    if isWordChar glyph.shown || glyph.shown = '.' then
      -- A place further on wins, so the rest of the name is asked first.
      (afterLastDotted? word rest).or (if glyph.shown = '.' then afterWord? word rest else none)
    else none

/-- What follows an annotation of a given simple name, qualified or not, at the start of code. -/
def afterMarker? (word : List Char) : List Glyph → Option (List Glyph)
  | [] => none
  | glyph :: rest =>
    if glyph.shown = '@' then
      -- With a qualifier the word stands behind a dot, without one right behind the sign.
      (if (rest.head?.map (·.shown)).any isNameStart then afterLastDotted? word rest else none).or
        (afterWord? word rest)
    else none

/-- The code in front of the first annotation of a given name, and the code behind the name. -/
def findMarker (word : List Char) : List Glyph → Option (List Glyph × List Glyph)
  | [] => none
  | glyph :: rest =>
    match afterMarker? word (glyph :: rest) with
    | some after => some ([], after)
    | none => (findMarker word rest).map fun (before, after) => (glyph :: before, after)

/-- The position of the last annotation of a given name. -/
def lastMarkerIndex? (word : List Char) : List Glyph → Option Nat
  | [] => none
  | glyph :: rest =>
    match lastMarkerIndex? word rest with
    | some index => some (index + 1)
    | none => if (afterMarker? word (glyph :: rest)).isSome then some 0 else none

end AnnotationUse

end IndexAudit
