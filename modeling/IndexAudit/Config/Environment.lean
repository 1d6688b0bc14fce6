import IndexAudit.Text.Lowercase
import IndexAudit.Text.Search

/-! The environment a program runs in, and references to it in texts. -/

namespace IndexAudit

/-- The names and values of the variables that are set. -/
abbrev Environment := List (String × String)

namespace Environment

/-- The value of a variable that is set; a name may go on into a value up to an equals sign. -/
def value? (environment : Environment) (name : String) : Option String :=
  if name.isEmpty then none
  else
    environment.findSome? fun entry =>
      (afterStart? (name.toList ++ ['=']) (entry.1.toList ++ '=' :: entry.2.toList)).map
        String.ofList

/-- The name of the reference that a text begins with, and what follows the reference. -/
def readReference? : List Char → Option (List Char × List Char)
  | '$' :: '{' :: rest =>
    let (name, behind) := rest.span (· != '}')
    -- A reference has a name, and a brace that closes it.
    match name, behind with
    | _ :: _, _ :: after => some (name, after)
    | _, _ => none
  | _ => none

/-- The names of the references in a text of at most a number of characters, in order. -/
def referencesWithin : (length : Nat) → List Char → List (List Char)
  | 0, _ => []
  | _, [] => []
  | length + 1, c :: rest =>
    match readReference? (c :: rest) with
    | some (name, after) => name :: referencesWithin length after
    | none => referencesWithin length rest

/-- The names of the references in a text, in order. -/
def references (text : List Char) : List (List Char) :=
  referencesWithin text.length text

/-- A text with all references of one name replaced, if the variable is set. -/
def substitute (environment : Environment) (text : List Char) (name : List Char) : List Char :=
  match environment.value? (String.ofList name) with
  | none => text
  | some value => replaceAll '$' ('{' :: name ++ ['}']) value.toList text

/--
A text with its references replaced by the values of their variables.

The names are those in the text as it was, in order; a value may bring in references of names that
are still to come, and these are replaced with them.
-/
def expand (environment : Environment) (text : List Char) : List Char :=
  (references text).foldl environment.substitute text

end Environment

end IndexAudit
