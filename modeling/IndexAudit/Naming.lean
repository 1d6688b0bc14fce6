import IndexAudit.Text.Blank
import IndexAudit.Text.Lowercase

/-! How the names of entity properties and the names of columns correspond. -/

namespace IndexAudit

/-- The snake-case form of the rest of a name; `low` says that a lower-case letter came before. -/
def snakeCaseAfter (low : Bool) : List Char → List Char
  | [] => []
  | c :: rest =>
    -- Whether a capital begins a word is told by the character as it was written.
    let lowered := lowerChar c ++ snakeCaseAfter (isLowercase c) rest
    if isUppercase c && low then '_' :: lowered else lowered

/--
The column name that a property name stands for when none is declared.

An underscore goes before each capital that directly follows a lower-case letter, and all is
lower-cased; a run of capitals stays in one piece.
-/
def snakeCase (name : String) : String :=
  String.ofList (snakeCaseAfter false name.toList)

/-- A name with its first character in lower case, as property names begin. -/
def decapitalizeChars : List Char → List Char
  | [] => []
  | c :: rest => lowerChar c ++ rest

/-- A name with its first character in lower case, as property names begin. -/
def decapitalize (name : String) : String :=
  String.ofList (decapitalizeChars name.toList)

/-- Whether a character is one of those that table and column names are quoted with. -/
def isNameQuote (c : Char) : Bool :=
  c = '\x60' || c = '"' || c = '[' || c = ']'

/-- A table or column name without the white space and quotes around it. -/
def cleanNameChars (name : List Char) : List Char :=
  dropEndWhile isNameQuote ((trim name).dropWhile isNameQuote)

/-- A table or column name without the white space and quotes around it. -/
def cleanName (name : String) : String :=
  String.ofList (cleanNameChars name.toList)

end IndexAudit
