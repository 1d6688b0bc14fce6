/-! Source text divided into physical lines, each with its code and its comments apart. -/

namespace IndexAudit

/-- Where in a source text a scan stands. -/
inductive SourceState where
  | code
  | lineComment
  /-- In front of the star that a block comment opens with. -/
  | blockOpening
  | blockComment
  /-- In front of the slash that a block comment closes with. -/
  | blockClosing
  /-- Inside a string between single double quotes. -/
  | string
  /-- In front of a character that a backslash protects inside a string. -/
  | stringEscape
  | character
  /-- In front of a character that a backslash protects inside a character literal. -/
  | characterEscape
  /-- In front of the last quotes that a raw string opens with. -/
  | rawOpening (left : Nat)
  /-- Inside a string between triple double quotes. -/
  | rawString
  /-- In front of the last quotes that a raw string closes with. -/
  | rawClosing (left : Nat)
deriving Repr, DecidableEq

/-- One thing a source text contributes to the line it stands on. -/
inductive SourcePiece where
  | code (c : Char)
  | comment (c : Char)
  | lineBreak
deriving Repr, DecidableEq

/-- One physical line of a source text. -/
structure SourceLine where
  /-- Counted from one. -/
  number : Nat
  /-- The code on this line, string literals included and comments left out. -/
  code : List Char
  /-- The comments on this line, their markers included. -/
  comment : List Char
deriving Repr, DecidableEq

namespace SourceState

/-- A line break ends a line comment and any string that may not span lines. -/
def afterLineBreak : SourceState → SourceState
  | .blockComment => .blockComment
  | .rawString => .rawString
  | _ => .code

/--
What one character contributes inside a line, and where it leaves the scan.

`rest` is what follows the character.
A block comment leaves one space in the code, so that it still separates words.
Only the last three of a run of quotes close a raw string.
-/
def step (state : SourceState) (c : Char) (rest : List Char) : List SourcePiece × SourceState :=
  match state with
  | .code =>
    if c = '/' ∧ rest.head? = some '/' then ([.comment c], .lineComment)
    else if c = '/' ∧ rest.head? = some '*' then ([.comment c], .blockOpening)
    -- Markers of comments mean nothing inside literals, so these are followed here as well.
    else if c = '"' ∧ rest.take 2 = ['"', '"'] then ([.code c], .rawOpening 2)
    else ([.code c], if c = '"' then .string else if c = '\'' then .character else .code)
  | .lineComment => ([.comment c], .lineComment)
  | .blockOpening => ([.comment c], .blockComment)
  | .blockComment =>
    ([.comment c], if c = '*' ∧ rest.head? = some '/' then .blockClosing else .blockComment)
  | .blockClosing => ([.comment c, .code ' '], .code)
  | .string =>
    -- A line break is never protected: it ends the line whatever stands in front of it.
    if c = '\\' then ([.code c], if rest.head?.any (· != '\n') then .stringEscape else .string)
    else ([.code c], if c = '"' then .code else .string)
  | .stringEscape => ([.code c], .string)
  | .character =>
    if c = '\\' then
      ([.code c], if rest.head?.any (· != '\n') then .characterEscape else .character)
    else ([.code c], if c = '\'' then .code else .character)
  | .characterEscape => ([.code c], .character)
  | .rawOpening left => ([.code c], if left ≤ 1 then .rawString else .rawOpening (left - 1))
  | .rawString =>
    if c = '"' ∧ rest.take 2 = ['"', '"'] ∧ rest.take 3 ≠ ['"', '"', '"'] then
      ([.code c], .rawClosing 2)
    else ([.code c], .rawString)
  | .rawClosing left => ([.code c], if left ≤ 1 then .code else .rawClosing (left - 1))

/-- Whether the next character counts whatever it is, a carriage return included. -/
def protects : SourceState → Bool
  | .stringEscape => true
  | .characterEscape => true
  | _ => false

/--
The pieces of a source text, read from a given state on.

Carriage returns are no part of any line unless a backslash stands in front of one in a string.
-/
def pieces (state : SourceState) : List Char → List SourcePiece
  | [] => []
  | c :: rest =>
    -- A line break counts in every state, and only some of them go on behind it.
    if c = '\n' then .lineBreak :: pieces state.afterLineBreak rest
    else if c = '\r' ∧ ¬ state.protects then pieces state rest
    else
      let taken := state.step c rest
      taken.1 ++ pieces taken.2 rest

end SourceState

namespace SourceLine

/-- The lines that the pieces of a text make up; only the last one may be missing when empty. -/
def ofPieces (number : Nat) (code comment : List Char) : List SourcePiece → List SourceLine
  | [] => if code.isEmpty && comment.isEmpty then [] else [⟨number, code, comment⟩]
  | .code c :: rest => ofPieces number (code ++ [c]) comment rest
  | .comment c :: rest => ofPieces number code (comment ++ [c]) rest
  | .lineBreak :: rest => ⟨number, code, comment⟩ :: ofPieces (number + 1) [] [] rest

/-- The lines of a source text. -/
def ofText (text : List Char) : List SourceLine :=
  ofPieces 1 [] [] (SourceState.code.pieces text)

/-- The code of all lines as one text, in which each line keeps its number. -/
def codeText (lines : List SourceLine) : List Char :=
  ['\n'].intercalate (lines.map (·.code))

/-- The number of the line on which a text that follows `before` starts. -/
def numberAfter (before : List Char) : Nat :=
  before.count '\n' + 1

end SourceLine

end IndexAudit
