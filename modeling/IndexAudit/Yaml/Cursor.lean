/-! Positions in the text of a YAML document, and its characters. -/

namespace IndexAudit

/-- The rest of a document's text, and where it starts. -/
structure YamlCursor where
  rest : List Char
  /-- How many characters came before. -/
  index : Nat
  line : Nat
  column : Nat

namespace YamlCursor

/-- Whether a character may occur in a document at all. -/
def isAllowed (c : Char) : Bool :=
  let code := c.toNat
  code == 0x9 || code == 0xA || code == 0xD || (0x20 ≤ code && code ≤ 0x7E) || code == 0x85 ||
    (0xA0 ≤ code && code ≤ 0xD7FF) || (0xE000 ≤ code && code ≤ 0xFFFD) || 0x10000 ≤ code

/-- Whether a character breaks a line. -/
def isBreak (c : Char) : Bool :=
  c = '\n' || c = '\r' || c.toNat == 0x85 || c.toNat == 0x2028 || c.toNat == 0x2029

/-- Whether a character is a space or a tab. -/
def isGap (c : Char) : Bool :=
  c = ' ' || c = '\t'

/-- Whether a character divides or encloses the items of a flow collection. -/
def isFlowMark (c : Char) : Bool :=
  c = ',' || c = '[' || c = ']' || c = '{' || c = '}'

/-- Whether a character may stand in an anchor, or in the handle of a tag. -/
def isNameChar (c : Char) : Bool :=
  c.isAlphanum || c = '_' || c = '-'

/-- The character a number of places ahead. -/
def ahead? (cursor : YamlCursor) (places : Nat) : Option Char :=
  cursor.rest[places]?

/-- Whether a given character comes next. -/
def isAt (cursor : YamlCursor) (c : Char) : Bool :=
  cursor.rest.head? == some c

/-- Whether a gap, a line break or the end of the text is a number of places ahead. -/
def endsAhead (cursor : YamlCursor) (places : Nat) : Bool :=
  (cursor.ahead? places).all fun c => isGap c || isBreak c

/-- Whether the line, or the text, ends here. -/
def endsLine (cursor : YamlCursor) : Bool :=
  cursor.rest.head?.all isBreak

/-- Past the next character, which breaks no line. -/
def next (cursor : YamlCursor) : YamlCursor :=
  match cursor.rest with
  | [] => cursor
  | _ :: rest =>
    { rest := rest
      index := cursor.index + 1
      line := cursor.line
      column := cursor.column + 1 }

/-- Past a number of characters that break no line. -/
def skip (cursor : YamlCursor) : Nat → YamlCursor
  | 0 => cursor
  | count + 1 => cursor.next.skip count

/-- Past the characters at the start that meet a condition and break no line. -/
def skipWhile (condition : Char → Bool) (cursor : YamlCursor) : YamlCursor :=
  cursor.skip (cursor.rest.takeWhile condition).length

/-- Past a byte order mark that starts a line: it says nothing there, but takes a column. -/
def skipByteOrderMark (cursor : YamlCursor) : YamlCursor :=
  if cursor.column == 0 && cursor.rest.head?.any (·.toNat == 0xFEFF) then cursor.next else cursor

/-- The text that a line break leaves in a scalar, and the cursor past the break. -/
def readBreak (cursor : YamlCursor) : List Char × YamlCursor :=
  let past (count : Nat) : YamlCursor :=
    { rest := cursor.rest.drop count
      index := cursor.index + count
      line := cursor.line + 1
      column := 0 }
  match cursor.rest with
  | '\r' :: '\n' :: _ => (['\n'], past 2)
  | c :: _ =>
    if c = '\n' ∨ c = '\r' ∨ c.toNat = 0x85 then (['\n'], past 1)
    else if isBreak c then ([c], past 1)
    else ([], cursor)
  | [] => ([], cursor)

/-- Past the line break that comes next, if one does. -/
def skipBreak (cursor : YamlCursor) : YamlCursor :=
  cursor.readBreak.2

/-- Past the rest of a line that may hold only a comment, and past its break. -/
def skipLineEnd? (cursor : YamlCursor) : Option YamlCursor :=
  let gap := cursor.skipWhile isGap
  let behind := if gap.isAt '#' then gap.skipWhile (!isBreak ·) else gap
  if behind.endsLine then some behind.skipBreak else none

/-- Whether one of the two marks around documents stands here, at the start of a line. -/
def atMark (cursor : YamlCursor) (mark : Char) : Bool :=
  cursor.column == 0 && cursor.rest.take 3 == [mark, mark, mark] && cursor.endsAhead 3

/-- Whether a document starts or ends here. -/
def atDocumentMark (cursor : YamlCursor) : Bool :=
  cursor.atMark '-' || cursor.atMark '.'

end YamlCursor

end IndexAudit
