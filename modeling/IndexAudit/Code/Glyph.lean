/-! Code in which the contents of string and character literals are hidden from searches. -/

namespace IndexAudit

/-- A character of code, and whether it lies inside a literal. -/
structure Glyph where
  char : Char
  hidden : Bool
deriving Repr, DecidableEq

/-- Where in code a scan for literals stands. -/
inductive LiteralState where
  | code
  /-- Inside a string between single double quotes. -/
  | string
  /-- In front of a character that a backslash protects inside a string. -/
  | stringEscape
  | character
  /-- In front of a character that a backslash protects inside a character literal. -/
  | characterEscape
  /-- In front of the last quotes that a raw string opens with. -/
  | rawOpening (left : Nat)
  /-- Inside a string between triple double quotes. -/
  | rawString
  /-- In front of the last quotes that a raw string closes with. -/
  | rawClosing (left : Nat)
deriving Repr, DecidableEq

namespace Glyph

/-- A character that lies in no literal. -/
def plain (c : Char) : Glyph := ⟨c, false⟩

/-- What a search sees of a character: a space stands for each one inside a literal. -/
def shown (glyph : Glyph) : Char :=
  if glyph.hidden then ' ' else glyph.char

/-- The text that a run of code consists of. -/
def text (code : List Glyph) : List Char :=
  code.map (·.char)

/-- The text that a search sees of a run of code. -/
def shownText (code : List Glyph) : List Char :=
  code.map (·.shown)

/-- A search sees a plain character as it is. -/
theorem shown_plain (c : Char) : (plain c).shown = c := rfl

/-- A search sees plain text as it is. -/
@[simp] theorem shownText_plain (text : List Char) : shownText (text.map plain) = text := by
  -- To show a plain piece gives its character back, so the text is mapped by the identity.
  rw [shownText, List.map_map]
  exact List.map_id text

/-- A search sees nothing in no code. -/
@[simp] theorem shownText_nil : shownText [] = [] := rfl

/-- A search sees one character behind the other. -/
@[simp] theorem shownText_cons (glyph : Glyph) (rest : List Glyph) :
    shownText (glyph :: rest) = glyph.shown :: shownText rest := rfl

/-- A search sees one run of code behind the other. -/
@[simp] theorem shownText_append (front back : List Glyph) :
    shownText (front ++ back) = shownText front ++ shownText back :=
  List.map_append

/-- What a search sees is a character of code or a space. -/
theorem char_of_shown {glyph : Glyph} {c : Char} (shown : glyph.shown = c) (visible : c ≠ ' ') :
    glyph.char = c := by
  -- A hidden character is seen as a space, so any other character that is seen is its own.
  unfold Glyph.shown at shown
  split at shown
  · exact absurd shown.symm visible
  · exact shown

end Glyph

namespace LiteralState

/--
Whether a character belongs to the contents of a literal, and where it leaves the scan.

`rest` is what follows the character.
The quotes around a literal are no part of its contents, and neither is a line break.
A backslash hides the character after it, and a line break ends a plain string or a character.
-/
def step (state : LiteralState) (c : Char) (rest : List Char) : Bool × LiteralState :=
  match state with
  | .code =>
    -- The quote that is read here is the first of three, so two are left.
    if c = '"' ∧ rest.take 2 = ['"', '"'] then (false, .rawOpening 2)
    else (false, if c = '"' then .string else if c = '\'' then .character else .code)
  | .string =>
    if c = '\\' ∧ rest.head?.any (· != '\n') then (true, .stringEscape)
    else if c = '"' ∨ c = '\n' then (false, .code)
    else (true, .string)
  | .stringEscape => (true, .string)
  | .character =>
    if c = '\\' ∧ rest.head?.any (· != '\n') then (true, .characterEscape)
    else if c = '\'' ∨ c = '\n' then (false, .code)
    else (true, .character)
  | .characterEscape => (true, .character)
  | .rawOpening left => (false, if left ≤ 1 then .rawString else .rawOpening (left - 1))
  | .rawString =>
    -- With a fourth quote behind them, the last three are still to come.
    if c = '"' ∧ rest.take 2 = ['"', '"'] ∧ rest.take 3 ≠ ['"', '"', '"'] then
      (false, .rawClosing 2)
    else (c ≠ '\n', .rawString)
  | .rawClosing left => (false, if left ≤ 1 then .code else .rawClosing (left - 1))

/-- Tells the contents of literals from the rest of a text, read from a given state on. -/
def glyphs (state : LiteralState) : List Char → List Glyph
  | [] => []
  | c :: rest =>
    let taken := state.step c rest
    ⟨c, taken.1⟩ :: glyphs taken.2 rest

end LiteralState

namespace Glyph

/-- Code with the contents of its literals hidden. -/
def ofCode (code : List Char) : List Glyph :=
  LiteralState.code.glyphs code

/-- The text in place of one character: a hidden one leaves as many spaces as it has bytes. -/
def masked (glyph : Glyph) : List Char :=
  if glyph.hidden then List.replicate glyph.char.utf8Size ' ' else [glyph.char]

/-- Code in which spaces stand for the contents of literals, of the same length in bytes. -/
def mask (code : List Char) : List Char :=
  (ofCode code).flatMap masked

end Glyph

/-- The length of a text in bytes. -/
def byteLength (text : List Char) : Nat :=
  (text.map Char.utf8Size).foldr (· + ·) 0

/-- The part of a text that lies behind its first `count` bytes. -/
def dropBytes : Nat → List Char → List Char
  | 0, text => text
  | _, [] => []
  | count + 1, c :: rest => dropBytes (count + 1 - c.utf8Size) rest

/-- The part of a text that lies within its first `count` bytes. -/
def takeBytes : Nat → List Char → List Char
  | 0, _ => []
  | _, [] => []
  | count + 1, c :: rest => c :: takeBytes (count + 1 - c.utf8Size) rest

end IndexAudit
