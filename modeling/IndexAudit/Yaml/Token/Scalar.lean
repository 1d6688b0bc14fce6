import IndexAudit.Text.Numeral
import IndexAudit.Text.Utf8
import IndexAudit.Yaml.Cursor

/-!
The texts of scalars, anchors and tags.

Each reader yields nothing where the text is malformed.
The number it takes bounds how many steps it may go, which the length of the text always allows.
-/

namespace IndexAudit

namespace YamlCursor

/-- What a run of gaps and line breaks inside a scalar leaves in it. -/
structure Fold where
  /-- The gaps of the line, as long as no break has come. -/
  gaps : List Char
  /-- The text of the first break. -/
  first : List Char
  /-- The text of the other breaks. -/
  others : List Char
  /-- Whether a break has come. -/
  broken : Bool

namespace Fold

/-- Nothing to fold yet. -/
def none : Fold := ⟨[], [], [], false⟩

/-- The text that a fold leaves: one break becomes a space, of several the first one goes. -/
def text (fold : Fold) : List Char :=
  if !fold.broken then fold.gaps
  else if fold.first.head? = some '\n' then
    if fold.others.isEmpty then [' '] else fold.others
  else fold.first ++ fold.others

end Fold

/-- A run of gaps and breaks; `indent` is where a tab at the start of a line is refused before. -/
def readFold? (indent : Nat) (cursor : YamlCursor) (fold : Fold) :
    Nat → Option (Fold × YamlCursor)
  | 0 => some (fold, cursor)
  | steps + 1 =>
    match cursor.rest with
    | [] => some (fold, cursor)
    | c :: _ =>
      if isGap c then
        -- Gaps at the start of a line are indentation, which tabs may not make up.
        if fold.broken && cursor.column < indent && c = '\t' then Option.none
        else
          let gaps := if fold.broken then fold.gaps else fold.gaps ++ [c]
          readFold? indent cursor.next { fold with gaps := gaps } steps
      else if isBreak c then
        let (text, after) := cursor.readBreak
        let fold :=
          if fold.broken then { fold with others := fold.others ++ text }
          else { fold with gaps := [], first := text, broken := true }
        readFold? indent after fold steps
      else some (fold, cursor)

/-- Whether an unquoted scalar ends in front of the next character. -/
def endsPlain (inFlow : Bool) (cursor : YamlCursor) : Bool :=
  (cursor.isAt ':' && cursor.endsAhead 1) ||
    (inFlow && cursor.rest.head?.any isFlowMark)

/-- Whether a colon stands where an unquoted scalar in a flow may not have one. -/
def strayColon (inFlow : Bool) (cursor : YamlCursor) : Bool :=
  inFlow && cursor.isAt ':' && (cursor.ahead? 1).any fun c => c = '?' || isFlowMark c

/-- The characters of an unquoted scalar up to a gap, a break or its end, in reverse order. -/
def readPlainRun? (inFlow : Bool) (cursor : YamlCursor) (text : List Char) :
    Nat → Option (List Char × YamlCursor)
  | 0 => some (text, cursor)
  | steps + 1 =>
    match cursor.rest with
    | [] => some (text, cursor)
    | c :: _ =>
      if isGap c || isBreak c then some (text, cursor)
      else if cursor.strayColon inFlow then none
      else if cursor.endsPlain inFlow then some (text, cursor)
      else readPlainRun? inFlow cursor.next (c :: text) steps

/-- What is known of an unquoted scalar while it is read. -/
structure PlainScalar where
  /-- The text so far, in reverse order. -/
  text : List Char
  /-- What follows it unless the scalar ends. -/
  fold : Fold
  cursor : YamlCursor

/-- An unquoted scalar; `indent` is the least column that it may go on from. -/
def readPlain? (inFlow : Bool) (indent : Nat) (scalar : PlainScalar) : Nat → Option PlainScalar
  | 0 => some scalar
  | steps + 1 =>
    let cursor := scalar.cursor
    if cursor.atDocumentMark || cursor.isAt '#' then some scalar
    else do
      let (run, behind) ← readPlainRun? inFlow cursor [] cursor.rest.length
      -- A gap or break belongs to the scalar only if more of it comes behind.
      let joined :=
        if run.isEmpty then scalar.text else run ++ scalar.fold.text.reverse ++ scalar.text
      let fold := if run.isEmpty then scalar.fold else Fold.none
      if behind.rest.head?.any fun c => isGap c || isBreak c then
        let (fold, after) ← readFold? indent behind fold behind.rest.length
        let scalar : PlainScalar := ⟨joined, fold, after⟩
        -- A line that is indented less is no part of the scalar.
        if !inFlow && after.column < indent then some scalar
        else readPlain? inFlow indent scalar steps
      else some ⟨joined, fold, behind⟩

/-- The character that a letter behind a backslash stands for. -/
def escape? (c : Char) : Option Char :=
  [('0', 0x0), ('a', 0x7), ('b', 0x8), ('t', 0x9), ('\t', 0x9), ('n', 0xA), ('v', 0xB),
    ('f', 0xC), ('r', 0xD), ('e', 0x1B), (' ', 0x20), ('"', 0x22), ('/', 0x2F), ('\\', 0x5C),
    ('N', 0x85), ('_', 0xA0), ('L', 0x2028), ('P', 0x2029)].lookup c |>.map Char.ofNat

/-- How many digits follow a letter behind a backslash that gives a character by its number. -/
def escapeWidth (c : Char) : Nat :=
  if c = 'x' then 2 else if c = 'u' then 4 else if c = 'U' then 8 else 0

/-- The character that an escape in a quoted scalar stands for, and the cursor past the escape. -/
def readEscape? (cursor : YamlCursor) : Option (Char × YamlCursor) := do
  let letter ← cursor.ahead? 1
  let width := escapeWidth letter
  let behind := cursor.skip 2
  if width = 0 then
    let c ← escape? letter
    some (c, behind)
  else
    let digits := behind.rest.take width
    let c ← if digits.length = width then Numeral.character? digits else none
    some (c, behind.skip width)

/-- What the characters of a quoted scalar up to a gap or break come to. -/
structure QuotedRun where
  /-- The text, in reverse order. -/
  text : List Char
  cursor : YamlCursor
  /-- Whether it ends in a break that a backslash takes out. -/
  broken : Bool

/-- The characters of a quoted scalar up to a gap, a break or the closing quote. -/
def readQuotedRun? (quote : Char) (cursor : YamlCursor) (text : List Char) :
    Nat → Option QuotedRun
  | 0 => some ⟨text, cursor, false⟩
  | steps + 1 =>
    match cursor.rest with
    | [] => some ⟨text, cursor, false⟩
    | c :: rest =>
      if isGap c || isBreak c then some ⟨text, cursor, false⟩
      else if quote = '\'' ∧ c = '\'' ∧ rest.head? = some '\'' then
        -- Between single quotes two of them stand for one.
        readQuotedRun? quote (cursor.skip 2) ('\'' :: text) steps
      else if c = quote then some ⟨text, cursor, false⟩
      else if quote = '"' ∧ c = '\\' then
        -- A backslash at the end of a line joins it to the next one without a space.
        if rest.head?.any isBreak then some ⟨text, cursor.next.skipBreak, true⟩
        else do
          let (escaped, after) ← cursor.readEscape?
          readQuotedRun? quote after (escaped :: text) steps
      else readQuotedRun? quote cursor.next (c :: text) steps

/-- The text of a quoted scalar that has been entered, and the cursor past its closing quote. -/
def readQuoted? (quote : Char) (cursor : YamlCursor) (text : List Char) :
    Nat → Option (List Char × YamlCursor)
  | 0 => none
  | steps + 1 =>
    if cursor.atDocumentMark || cursor.rest.isEmpty then none
    else do
      let run ← readQuotedRun? quote cursor text cursor.rest.length
      if run.cursor.isAt quote then some (run.text.reverse, run.cursor.next)
      else
        let (fold, after) ←
          readFold? 0 run.cursor { Fold.none with broken := run.broken } run.cursor.rest.length
        readQuoted? quote after (fold.text.reverse ++ run.text) steps

/-- How the breaks at the end of a block scalar are kept. -/
inductive Chomping where
  | strip
  | clip
  | keep
deriving DecidableEq

/-- The head of a block scalar: how its end is kept, and by how much it is indented, if given. -/
def readBlockHead? (cursor : YamlCursor) : Option (Chomping × Option Nat × YamlCursor) :=
  let chomping? (at_ : YamlCursor) : Option Chomping :=
    if at_.isAt '+' then some .keep else if at_.isAt '-' then some .strip else none
  let increment? (at_ : YamlCursor) : Option Nat :=
    (at_.rest.head?.filter Char.isDigit).map fun c => c.toNat - '0'.toNat
  -- The two indicators may come in either order.
  let (chomping, increment, behind) :=
    match chomping? cursor with
    | some chomping =>
      match increment? cursor.next with
      | some increment => (chomping, some increment, cursor.skip 2)
      | none => (chomping, none, cursor.next)
    | none =>
      match increment? cursor with
      | some increment =>
        match chomping? cursor.next with
        | some chomping => (chomping, some increment, cursor.skip 2)
        | none => (.clip, some increment, cursor.next)
      | none => (.clip, none, cursor)
  if increment = some 0 then none else some (chomping, increment, behind)

/--
The breaks of empty lines in a block scalar, and the greatest column that their spaces reach.

`indent` is the scalar's indentation, as far as it is known.
-/
def readBlockBreaks? (indent : Option Nat) (cursor : YamlCursor) (breaks : List Char)
    (reached : Nat) : Nat → Option (List Char × Nat × YamlCursor)
  | 0 => some (breaks, reached, cursor)
  | steps + 1 =>
    let missing := match indent with
      | some indent => (cursor.rest.takeWhile (· = ' ')).take (indent - cursor.column)
      | none => cursor.rest.takeWhile (· = ' ')
    let behind := cursor.skip missing.length
    let reached := max reached behind.column
    let inside := indent.all (behind.column < ·)
    -- A tab never indents, so in front of the text it is refused.
    if inside && behind.isAt '\t' then none
    else if behind.rest.head?.any isBreak then
      let (text, after) := behind.readBreak
      readBlockBreaks? indent after (breaks ++ text) reached steps
    else some (breaks, reached, behind)

/-- What is known of a block scalar while it is read. -/
structure BlockScalar where
  /-- The text so far, in reverse order. -/
  text : List Char
  /-- The break behind the last line. -/
  leading : List Char
  /-- The breaks of the empty lines behind it. -/
  trailing : List Char
  /-- Whether the last line began with a gap. -/
  gapped : Bool
  cursor : YamlCursor

/-- The lines of a block scalar of a given indentation. -/
def readBlockLines? (literal : Bool) (indent : Nat) (scalar : BlockScalar) :
    Nat → Option BlockScalar
  | 0 => some scalar
  | steps + 1 =>
    let cursor := scalar.cursor
    if cursor.column ≠ indent ∨ cursor.rest.isEmpty then some scalar
    else do
      let gapped := cursor.rest.head?.any isGap
      -- Folding takes out a break between two lines that both begin with no gap.
      let folded := !literal && scalar.leading.head? = some '\n' && !scalar.gapped && !gapped
      let between :=
        if folded then if scalar.trailing.isEmpty then [' '] else []
        else scalar.leading
      let line := cursor.rest.takeWhile (!isBreak ·)
      let (leading, after) := (cursor.skip line.length).readBreak
      let (trailing, _, behind) ←
        readBlockBreaks? (some indent) after [] 0 (after.rest.length + 1)
      let text := line.reverse ++ scalar.trailing.reverse ++ between.reverse ++ scalar.text
      readBlockLines? literal indent ⟨text, leading, trailing, gapped, behind⟩ steps

/-- A block scalar behind its first character; `outer` is the indentation around it. -/
def readBlock? (literal : Bool) (outer : Int) (cursor : YamlCursor) :
    Option (List Char × YamlCursor) := do
  let (chomping, increment, head) ← cursor.readBlockHead?
  let start ← head.skipLineEnd?
  let given := increment.map fun count => (max outer 0).toNat + count
  let (breaks, reached, first) ← readBlockBreaks? given start [] 0 (start.rest.length + 1)
  -- Without a number it is the column that the spaces in front of the text reach.
  let indent := given.getD (max reached (max (outer + 1) 1).toNat)
  let scalar ←
    readBlockLines? literal indent ⟨[], [], breaks, false, first⟩ (first.rest.length + 1)
  let ending := match chomping with
    | .strip => []
    | .clip => scalar.leading
    | .keep => scalar.leading ++ scalar.trailing
  some (scalar.text.reverse ++ ending, scalar.cursor)

/-- Whether a character may stand right behind the name of an anchor or alias. -/
def closesName (c : Char) : Bool :=
  match c with
  | '?' | ':' | ',' | ']' | '}' | '%' | '@' | '\x60' => true
  | _ => false

/-- The name behind the mark of an anchor or alias, and the cursor past it. -/
def readAnchor? (cursor : YamlCursor) : Option (List Char × YamlCursor) :=
  let name := cursor.rest.takeWhile isNameChar
  let behind := cursor.skip name.length
  let closed := behind.endsAhead 0 || behind.rest.head?.any closesName
  if name.isEmpty || !closed then none else some (name, behind)

/-- The byte that a percent sign and two digits stand for. -/
def percentByte? : List Char → Option UInt8
  | '%' :: a :: b :: _ => (Numeral.natural? 16 [a, b]).map UInt8.ofNat
  | _ => none

/-- The bytes of one character given by percent signs. -/
def percentBytes? (text : List Char) : Option (List UInt8) := do
  let first ← percentByte? text
  let width :=
    if first < 0x80 then 1
    else if first &&& 0xE0 = 0xC0 then 2
    else if first &&& 0xF0 = 0xE0 then 3
    else if first &&& 0xF8 = 0xF0 then 4
    else 0
  if width = 0 then none
  else
    let more ← (List.range (width - 1)).mapM fun place => percentByte? (text.drop (3 * (place + 1)))
    if more.all fun byte => byte &&& 0xC0 = 0x80 then some (first :: more) else none

/-- The text of a tag, in reverse order; `verbatim` ones may hold commas and square brackets. -/
def readTagText? (verbatim : Bool) (cursor : YamlCursor) (text : List Char) :
    Nat → Option (List Char × YamlCursor)
  | 0 => some (text, cursor)
  | steps + 1 =>
    match cursor.rest with
    | [] => some (text, cursor)
    | c :: _ =>
      if c = '%' then do
        -- One character may take several percent signs.
        let bytes ← percentBytes? cursor.rest
        readTagText? verbatim (cursor.skip (3 * bytes.length))
          ((Utf8.lossyText bytes).reverse ++ text) steps
      else if isNameChar c || ";/?:@&=+$.!~*'()".toList.contains c ||
          (verbatim && ",[]".toList.contains c) then
        readTagText? verbatim cursor.next (c :: text) steps
      else some (text, cursor)

/-- The text of a tag behind what is already known of it, which may be nothing. -/
def readTagEnding? (verbatim : Bool) (known : Option (List Char)) (cursor : YamlCursor) :
    Option (List Char × YamlCursor) := do
  let start := (known.getD []).drop 1
  let (text, behind) ← readTagText? verbatim cursor start.reverse cursor.rest.length
  if (known.getD []).isEmpty && behind.index = cursor.index then none
  else some (text.reverse, behind)

/-- The handle of a tag: names between exclamation marks, of which the last may be missing. -/
def readTagHandle (cursor : YamlCursor) : List Char × YamlCursor :=
  let behind := cursor.next.skipWhile isNameChar
  let closed := if behind.isAt '!' then behind.next else behind
  (cursor.rest.take (closed.index - cursor.index), closed)

/-- A tag as handle and ending, and the cursor past it. -/
def readTag? (inFlow : Bool) (cursor : YamlCursor) :
    Option (List Char × List Char × YamlCursor) := do
  let (handle, ending, behind) ←
    if cursor.ahead? 1 = some '<' then do
      let (ending, behind) ← (cursor.skip 2).readTagEnding? true none
      if behind.isAt '>' then some ([], ending, behind.next) else none
    else
      let (handle, after) := cursor.readTagHandle
      if 1 < handle.length && handle.getLast? = some '!' then do
        let (ending, behind) ← after.readTagEnding? false none
        some (handle, ending, behind)
      else do
        let (ending, behind) ← after.readTagEnding? false (some handle)
        -- A mark alone is a tag that leaves the kind of the value open.
        if ending.isEmpty then some ([], ['!'], behind) else some (['!'], ending, behind)
  if behind.endsAhead 0 || (inFlow && behind.isAt ',') then some (handle, ending, behind) else none

end YamlCursor

end IndexAudit
