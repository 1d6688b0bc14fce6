import IndexAudit.Text.CharRun

/-! White space, and the trimming of texts. -/

namespace IndexAudit

/-- The Unicode property White_Space, in order. -/
def blankRuns : List CharRun :=
  [⟨0x9, 0xD, 1⟩, ⟨0x20, 0x20, 1⟩, ⟨0x85, 0x85, 1⟩, ⟨0xA0, 0xA0, 1⟩, ⟨0x1680, 0x1680, 1⟩,
   ⟨0x2000, 0x200A, 1⟩, ⟨0x2028, 0x2029, 1⟩, ⟨0x202F, 0x202F, 1⟩, ⟨0x205F, 0x205F, 1⟩,
   ⟨0x3000, 0x3000, 1⟩]

/-- Whether a character is white space. -/
def isBlank (c : Char) : Bool :=
  CharRun.covers blankRuns c.toNat

/-- The white space that may stand between two words of a declaration: ASCII, no vertical tab. -/
def isSpacing (c : Char) : Bool :=
  c = ' ' || c = '\t' || c = '\n' || c = '\x0c' || c = '\r'

/-- All ASCII white space, the vertical tab with it. -/
def isAsciiBlank (c : Char) : Bool :=
  isSpacing c || c = '\x0b'

/-- Dropping from the front of a text never makes it longer. -/
theorem dropWhile_length {α : Type} (p : α → Bool) (xs : List α) :
    (xs.dropWhile p).length ≤ xs.length :=
  List.Sublist.length_le (List.dropWhile_sublist p)

/-- What dropping from the front of a text leaves is shorter than the text by its first item. -/
theorem dropWhile_tail_length {α : Type} {p : α → Bool} {x : α} {xs rest : List α}
    (left : xs.dropWhile p = x :: rest) : rest.length < xs.length :=
  -- With its first item, what is left is still no longer than the text.
  Nat.lt_of_lt_of_le (left ▸ Nat.lt_succ_self rest.length) (dropWhile_length p xs)

/-- A text without what is white space by `blank` at its end. -/
def dropEndWhile (blank : Char → Bool) (text : List Char) : List Char :=
  (text.reverse.dropWhile blank).reverse

/-- A text without the white space at its start. -/
def trimStart (text : List Char) : List Char :=
  text.dropWhile isBlank

/-- A text without the white space at either end. -/
def trim (text : List Char) : List Char :=
  dropEndWhile isBlank (trimStart text)

/-- A string without the white space at either end. -/
def trimString (text : String) : String :=
  String.ofList (trim text.toList)

/-- Whether a text says "true" in any letter case, between any white space. -/
def saysTrue (text : String) : Bool :=
  (trim text.toList).map Char.toLower == "true".toList

/-- The runs of a text between white space, none of them empty. -/
def words (text : List Char) : List (List Char) :=
  (text.splitBy fun a b => isBlank a == isBlank b).filter fun run =>
    run.head?.any (!isBlank ·)

end IndexAudit
