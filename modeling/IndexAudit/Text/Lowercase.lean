import IndexAudit.Text.LetterCase
import IndexAudit.Text.CaseContext
import IndexAudit.Text.LowercaseShift

/-! Lower-casing of single characters and of whole texts. -/

namespace IndexAudit

/--
The lower-case form of one character, wherever it stands.

Only the capital I with a dot above becomes two characters, the letter and a combining dot.
-/
def lowerChar (c : Char) : List Char :=
  if c.val < 0x80 then [c.toLower]
  else if c.val = 0x130 then ['i', Char.ofNat 0x307]
  else
    match caseShifts.find? (·.holds c.toNat) with
    | some run => [Char.ofNat (c.toNat + run.shift).toNat]
    | none => [c]

/-- Whether the first character that case does not look through takes part in case. -/
def startsCased (text : List Char) : Bool :=
  ((text.dropWhile isCaseIgnorable).head?.map isCased).getD false

/-- Lower-casing of the rest of a text, given the characters in front of it in reverse order. -/
def lowerAfter (before : List Char) : List Char → List Char
  | [] => []
  | c :: rest =>
    -- A capital sigma that ends a word has a lower-case form of its own.
    let lowered :=
      if c = 'Σ' then if startsCased before && !startsCased rest then ['ς'] else ['σ']
      else lowerChar c
    lowered ++ lowerAfter (c :: before) rest

/-- The lower-case form of a text, in which a sigma at the end of a word is the final one. -/
def lowerChars (text : List Char) : List Char :=
  lowerAfter [] text

/-- The lower-case form of a string; two names are the same name when these agree. -/
def lower (text : String) : String :=
  String.ofList (lowerChars text.toList)

end IndexAudit
