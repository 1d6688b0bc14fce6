import IndexAudit.Text.Numeral

/-! Character references in XML text and attribute values. -/

namespace IndexAudit

namespace XmlReference

/-- The character of a code point, which may not be zero. -/
def character? (code : Nat) : Option Char :=
  if 0 < code ∧ code.isValidChar then some (Char.ofNat code) else none

/-- The character that stands behind the name or number of a reference. -/
def resolve? : List Char → Option Char
  | '#' :: 'x' :: digits => (Numeral.natural? 16 digits).bind character?
  | '#' :: digits => (Numeral.natural? 10 digits).bind character?
  | name =>
    match String.ofList name with
    | "lt" => some '<'
    | "gt" => some '>'
    | "amp" => some '&'
    | "apos" => some '\''
    | "quot" => some '"'
    | _ => none

/--
A text with its references resolved; `pending` holds what an open one has so far, in reverse.

A reference that does not end, or is not known, leaves the text without a value.
-/
def expandFrom? (pending : Option (List Char)) : List Char → Option (List Char)
  | [] => if pending.isSome then none else some []
  | c :: rest =>
    match pending with
    | none => if c = '&' then expandFrom? (some []) rest else (expandFrom? none rest).map (c :: ·)
    | some name =>
      if c = '&' then none
      else if c = ';' then do
        let character ← resolve? name.reverse
        (expandFrom? none rest).map (character :: ·)
      else expandFrom? (some (c :: name)) rest

/-- A text with its references resolved. -/
def expand? (text : List Char) : Option (List Char) :=
  expandFrom? none text

end XmlReference

end IndexAudit
