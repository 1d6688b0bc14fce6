import IndexAudit.Yaml.Token
import IndexAudit.Yaml.Token.Scalar

/-!
The tokens of a document's text, with those that indentation and simple keys imply.

A simple key is only known as one when its colon comes, so the tokens for it are put in front of
it then.
-/

namespace IndexAudit

/-- A place where a key may have begun that no question mark announces. -/
structure SimpleKey where
  /-- How many tokens came before it. -/
  position : Nat
  /-- Whether only a key may stand there. -/
  required : Bool
  index : Nat
  line : Nat
  column : Nat

/-- How far the text of a document has been taken apart. -/
structure YamlLexer where
  cursor : YamlCursor
  /-- The tokens so far, latest first. -/
  tokens : List YamlToken
  /-- The simple key that may have begun in each open flow and outside all, innermost first. -/
  keys : List (Option SimpleKey)
  /-- Whether a simple key may begin here. -/
  keyAllowed : Bool
  /-- The column of the innermost block collection; there is none below zero. -/
  indent : Int
  /-- The columns of those around it, inner first. -/
  outer : List Int

namespace YamlLexer

/-- The state at the start of a text. -/
def start (text : List Char) : YamlLexer where
  cursor := ⟨text, 0, 0, 0⟩
  tokens := []
  keys := [none]
  keyAllowed := true
  indent := -1
  outer := []

/-- Whether the text stands inside a flow collection. -/
def inFlow (lexer : YamlLexer) : Bool :=
  1 < lexer.keys.length

/-- Adds a token. -/
def push (lexer : YamlLexer) (token : YamlToken) : YamlLexer :=
  { lexer with tokens := token :: lexer.tokens }

/-- Adds a token in front of all but the first `position` ones. -/
def insert (lexer : YamlLexer) (position : Nat) (token : YamlToken) : YamlLexer :=
  let behind := lexer.tokens.length - position
  { lexer with tokens := lexer.tokens.take behind ++ token :: lexer.tokens.drop behind }

/-- Ends the block collections that lie further right than a column. -/
def unroll (column : Int) (lexer : YamlLexer) : YamlLexer :=
  if lexer.inFlow then lexer
  else
    -- Columns grow from the outermost collection in, so those to end come first.
    let closed := (lexer.indent :: lexer.outer).takeWhile (column < ·)
    match (lexer.indent :: lexer.outer).drop closed.length with
    | indent :: outer =>
      { lexer with
        tokens := List.replicate closed.length .blockEnd ++ lexer.tokens
        indent := indent
        outer := outer }
    | [] => lexer

/-- Begins a block collection at a column, unless one of that column is open. -/
def roll (lexer : YamlLexer) (column position : Nat) (token : YamlToken) : YamlLexer :=
  if lexer.inFlow || (column : Int) ≤ lexer.indent then lexer
  else
    { lexer.insert position token with
      indent := column
      outer := lexer.indent :: lexer.outer }

/-- Gives up a simple key on the innermost level, which fails where one is required. -/
def dropKey? (lexer : YamlLexer) : Option YamlLexer :=
  match lexer.keys with
  | some key :: rest => if key.required then none else some { lexer with keys := none :: rest }
  | _ => some lexer

/-- Notes that a simple key may begin here. -/
def saveKey? (lexer : YamlLexer) : Option YamlLexer :=
  if lexer.keyAllowed then do
    let lexer ← lexer.dropKey?
    let cursor := lexer.cursor
    let key : SimpleKey :=
      { position := lexer.tokens.length
        required := !lexer.inFlow && lexer.indent == cursor.column
        index := cursor.index
        line := cursor.line
        column := cursor.column }
    some { lexer with keys := some key :: lexer.keys.drop 1 }
  else some lexer

/-- Gives up the simple keys that are too long or run over a line, if none of them is required. -/
def staleKeys? (lexer : YamlLexer) : Option YamlLexer := do
  let cursor := lexer.cursor
  let keys ← lexer.keys.mapM fun key =>
    match key with
    | none => some none
    | some key =>
      -- A simple key ends on the line where it began, within 1024 characters.
      if key.line < cursor.line || key.index + 1024 < cursor.index then
        if key.required then none else some none
      else some (some key)
  some { lexer with keys := keys }

/-- Moves past the gaps, comments and line breaks in front of the next token. -/
def skipToToken (lexer : YamlLexer) : Nat → YamlLexer
  | 0 => lexer
  | steps + 1 =>
    -- A tab never indents, so it is no gap where a block key may begin.
    let tabs := lexer.inFlow || !lexer.keyAllowed
    let gap := lexer.cursor.skipByteOrderMark.skipWhile fun c => c = ' ' || (tabs && c = '\t')
    let behind := if gap.isAt '#' then gap.skipWhile (!YamlCursor.isBreak ·) else gap
    if behind.rest.head?.any YamlCursor.isBreak then
      { lexer with
        cursor := behind.skipBreak
        keyAllowed := !lexer.inFlow || lexer.keyAllowed }.skipToToken steps
    else { lexer with cursor := behind }

/-- Adds a token of a number of characters. -/
def take (lexer : YamlLexer) (count : Nat) (token : YamlToken) : YamlLexer :=
  { lexer.push token with cursor := lexer.cursor.skip count }

/-- Adds a token that ends at a cursor. -/
def takeTo (lexer : YamlLexer) (cursor : YamlCursor) (token : YamlToken) : YamlLexer :=
  { lexer.push token with cursor := cursor }

/-- The state with simple keys allowed or not. -/
def allowing (lexer : YamlLexer) (allowed : Bool) : YamlLexer :=
  { lexer with keyAllowed := allowed }

/-- A decimal number of at most nine digits, and the cursor past it. -/
def readNumber? (cursor : YamlCursor) : Option (Nat × YamlCursor) :=
  let digits := cursor.rest.takeWhile Char.isDigit
  if digits.isEmpty || 9 < digits.length then none
  else
    some (Numeral.decimal digits, cursor.skip digits.length)

/-- The token of a directive whose name has been read, and the cursor past it. -/
def readDirective? (name : String) (cursor : YamlCursor) : Option (YamlToken × YamlCursor) := do
  let start := cursor.skipWhile YamlCursor.isGap
  if name = "YAML" then
    let (major, point) ← readNumber? start
    if !point.isAt '.' then none
    else
      let (minor, behind) ← readNumber? point.next
      some (.version major minor, behind)
  else if name = "TAG" then
    if !start.isAt '!' then none
    else
      let (handle, gap) := start.readTagHandle
      if (handle.getLast? ≠ some '!') || !gap.rest.head?.any YamlCursor.isGap then none
      else
        let (expansion, behind) ← (gap.skipWhile YamlCursor.isGap).readTagEnding? true none
        if behind.endsAhead 0 then some (.tagHandle handle expansion, behind) else none
  else none

/-- Takes a directive. -/
def takeDirective? (lexer : YamlLexer) : Option YamlLexer := do
  let lexer ← (lexer.unroll (-1)).dropKey?
  let name := lexer.cursor.next.rest.takeWhile YamlCursor.isNameChar
  let behind := lexer.cursor.skip (name.length + 1)
  if name.isEmpty || !behind.endsAhead 0 then none
  else
    let (token, cursor) ← readDirective? (String.ofList name) behind
    some ((lexer.takeTo (← cursor.skipLineEnd?) token).allowing false)

/-- Takes a mark around a document. -/
def takeMark? (lexer : YamlLexer) (token : YamlToken) : Option YamlLexer := do
  let lexer ← (lexer.unroll (-1)).dropKey?
  some ((lexer.take 3 token).allowing false)

/-- Takes the bracket that opens a flow collection. -/
def openFlow? (lexer : YamlLexer) (token : YamlToken) : Option YamlLexer := do
  let lexer ← lexer.saveKey?
  some (({ lexer with keys := none :: lexer.keys }.take 1 token).allowing true)

/-- Takes the bracket that closes a flow collection. -/
def closeFlow? (lexer : YamlLexer) (token : YamlToken) : Option YamlLexer := do
  let lexer ← lexer.dropKey?
  let keys := if lexer.inFlow then lexer.keys.drop 1 else lexer.keys
  some (({ lexer with keys := keys }.take 1 token).allowing false)

/-- Takes an indicator that may begin a block collection, where that is allowed. -/
def takeIndicator? (lexer : YamlLexer) (collection token : YamlToken) (allowed : Bool) :
    Option YamlLexer := do
  if !lexer.inFlow && !lexer.keyAllowed then none
  else
    let lexer ← (lexer.roll lexer.cursor.column lexer.tokens.length collection).dropKey?
    some ((lexer.take 1 token).allowing allowed)

/-- Takes the colon in front of a value, and makes what came before a simple key if it can be. -/
def takeValue? (lexer : YamlLexer) : Option YamlLexer :=
  match lexer.keys with
  | some key :: rest =>
    -- The key came before it was known as one, so its token goes where it began.
    let keyed := { lexer with keys := none :: rest }.insert key.position .key
    some (((keyed.roll key.column key.position .blockMappingStart).take 1 .value).allowing false)
  | _ =>
    if !lexer.inFlow && !lexer.keyAllowed then none
    else
      let rolled := lexer.roll lexer.cursor.column lexer.tokens.length .blockMappingStart
      some ((rolled.take 1 .value).allowing (!lexer.inFlow))

/-- Takes a token that may begin a simple key. -/
def takeKeyed? (lexer : YamlLexer) (read : YamlCursor → Option (YamlToken × YamlCursor)) :
    Option YamlLexer := do
  let lexer ← lexer.saveKey?
  let (token, cursor) ← read lexer.cursor
  some ((lexer.takeTo cursor token).allowing false)

/-- Takes an unquoted scalar. -/
def takePlain? (lexer : YamlLexer) : Option YamlLexer := do
  let lexer ← lexer.saveKey?
  let cursor := lexer.cursor
  let scalar ← YamlCursor.readPlain? lexer.inFlow (lexer.indent + 1).toNat
    ⟨[], YamlCursor.Fold.none, cursor⟩ (cursor.rest.length + 1)
  some ((lexer.takeTo scalar.cursor (.scalar scalar.text.reverse true)).allowing
    scalar.fold.broken)

/-- Takes a block scalar. -/
def takeBlock? (lexer : YamlLexer) (literal : Bool) : Option YamlLexer := do
  let lexer ← lexer.dropKey?
  let (text, cursor) ← lexer.cursor.next.readBlock? literal lexer.indent
  some ((lexer.takeTo cursor (.scalar text false)).allowing true)

/-- Takes a quoted scalar. -/
def takeQuoted? (lexer : YamlLexer) (quote : Char) : Option YamlLexer :=
  lexer.takeKeyed? fun cursor =>
    (cursor.next.readQuoted? quote [] (cursor.rest.length + 1)).map fun (text, behind) =>
      (.scalar text false, behind)

/-- Takes an anchor or an alias. -/
def takeAnchor? (lexer : YamlLexer) (token : List Char → YamlToken) : Option YamlLexer :=
  lexer.takeKeyed? fun cursor =>
    cursor.next.readAnchor?.map fun (name, behind) => (token name, behind)

/-- Takes a tag. -/
def takeTag? (lexer : YamlLexer) : Option YamlLexer :=
  lexer.takeKeyed? fun cursor =>
    (cursor.readTag? lexer.inFlow).map fun (handle, ending, behind) => (.tag handle ending, behind)

/-- Whether an unquoted scalar begins with the next character. -/
def startsPlain (lexer : YamlLexer) (c : Char) : Bool :=
  let cursor := lexer.cursor
  !(c = '\t' || YamlCursor.isFlowMark c || "-?:#&*!|>'\"%@\x60".toList.contains c) ||
    (c = '-' && !cursor.rest[1]?.any YamlCursor.isGap) ||
    (!lexer.inFlow && (c = '?' || c = ':') && !cursor.endsAhead 1)

/-- Takes the token that begins with the next character. -/
def takeToken? (lexer : YamlLexer) (c : Char) : Option YamlLexer :=
  let cursor := lexer.cursor
  let indicates := lexer.inFlow || cursor.endsAhead 1
  -- Directives and the marks around documents are told by the column they stand in.
  if cursor.column = 0 ∧ c = '%' then lexer.takeDirective?
  else if cursor.atMark '-' then lexer.takeMark? .documentStart
  else if cursor.atMark '.' then lexer.takeMark? .documentEnd
  else if c = '[' then lexer.openFlow? .flowSequenceStart
  else if c = '{' then lexer.openFlow? .flowMappingStart
  else if c = ']' then lexer.closeFlow? .flowSequenceEnd
  else if c = '}' then lexer.closeFlow? .flowMappingEnd
  else if c = ',' then do
    some (((← lexer.dropKey?).take 1 .flowEntry).allowing true)
  -- The next three need a gap behind them, but the last two of them not in a flow.
  else if c = '-' ∧ cursor.endsAhead 1 then
    lexer.takeIndicator? .blockSequenceStart .blockEntry true
  else if c = '?' ∧ indicates then
    lexer.takeIndicator? .blockMappingStart .key !lexer.inFlow
  else if c = ':' ∧ indicates then lexer.takeValue?
  else if c = '*' then lexer.takeAnchor? .alias
  else if c = '&' then lexer.takeAnchor? .anchor
  else if c = '!' then lexer.takeTag?
  else if c = '|' ∧ !lexer.inFlow then lexer.takeBlock? true
  else if c = '>' ∧ !lexer.inFlow then lexer.takeBlock? false
  else if c = '\'' ∨ c = '"' then lexer.takeQuoted? c
  else if lexer.startsPlain c then lexer.takePlain?
  else none

/-- The tokens of the rest of a text, which fail to come where the text is malformed. -/
def run? (lexer : YamlLexer) : Nat → Option (List YamlToken)
  | 0 => none
  | steps + 1 => do
    let here := lexer.skipToToken (lexer.cursor.rest.length + 1)
    let lexer ← here.staleKeys?
    -- The column of the next token ends the collections that lie further right.
    let lexer := lexer.unroll lexer.cursor.column
    match lexer.cursor.rest with
    | [] =>
      let closed ← (lexer.unroll (-1)).dropKey?
      some (closed.push .streamEnd).tokens.reverse
    | c :: _ => (← lexer.takeToken? c).run? steps

end YamlLexer

namespace YamlToken

/-- The tokens of a document's text, unless it is malformed. -/
def tokenize? (text : List Char) : Option (List YamlToken) :=
  if text.all YamlCursor.isAllowed then (YamlLexer.start text).run? (text.length + 1) else none

end YamlToken

end IndexAudit
