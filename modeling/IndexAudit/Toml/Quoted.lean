import IndexAudit.Text.Numeral

/-! Strings and keys in quotes, on one line or several. -/

namespace IndexAudit

namespace TomlText

/-- Whether a character is white space within a line. -/
def isGap (c : Char) : Bool :=
  c = ' ' || c = '\t'

/-- Whether a character may stand for itself in a string, its quotes and escapes aside. -/
def isPrintable (c : Char) : Bool :=
  c = '\t' || (0x20 ≤ c.toNat && c.toNat ≤ 0x7E) || 0x80 ≤ c.toNat

/-- What follows a line break at the start of a text. -/
def afterBreak? : List Char → Option (List Char)
  | '\n' :: rest => some rest
  | '\r' :: '\n' :: rest => some rest
  | _ => none

/-- The character that a number of hexadecimal digits stand for, and what follows. -/
def readCode? (count : Nat) (text : List Char) : Option (Char × List Char) := do
  let (digits, rest) := text.splitAt count
  if digits.length < count then none else some (← Numeral.character? digits, rest)

/-- The character that stands behind a backslash, and what follows. -/
def readEscape? : List Char → Option (Char × List Char)
  | 'b' :: rest => some ('\x08', rest)
  | 'f' :: rest => some ('\x0c', rest)
  | 'n' :: rest => some ('\n', rest)
  | 'r' :: rest => some ('\r', rest)
  | 't' :: rest => some ('\t', rest)
  | '\\' :: rest => some ('\\', rest)
  | '"' :: rest => some ('"', rest)
  | 'u' :: rest => readCode? 4 rest
  | 'U' :: rest => readCode? 8 rest
  | _ => none

/-- A string with escapes up to its closing quote, and what follows; `steps` bounds its length. -/
def readEscaped? : (steps : Nat) → List Char → Option (List Char × List Char)
  | 0, _ => none
  | _, [] => none
  | steps + 1, c :: rest =>
    if c = '"' then some ([], rest)
    else if c = '\\' then do
      let (character, rest) ← readEscape? rest
      let (text, after) ← readEscaped? steps rest
      some (character :: text, after)
    else if isPrintable c then
      (readEscaped? steps rest).map fun (text, after) => (c :: text, after)
    else none

/-- A string without escapes up to its closing quote, and what follows. -/
def readLiteral? (text : List Char) : Option (List Char × List Char) :=
  let (inside, behind) := text.span fun c => c != '\'' && isPrintable c
  match behind with
  | '\'' :: rest => some (inside, rest)
  | _ => none

/--
How many of a run of quotes belong to a string over several lines, if the run ends it.

Three end it, and up to two more may stand in front of them; a shorter run does not end it.
-/
def quotesBeforeEnd? (run : Nat) : Option Nat :=
  if run < 3 then none else some (min (run - 3) 2)

/-- The rest of a text behind white space and line breaks. -/
def skipBlankLines : List Char → List Char
  | ' ' :: rest => skipBlankLines rest
  | '\t' :: rest => skipBlankLines rest
  | '\n' :: rest => skipBlankLines rest
  | '\r' :: '\n' :: rest => skipBlankLines rest
  | text => text

/-- What follows the white space and line breaks left out behind a backslash that ends a line. -/
def afterJoint? (text : List Char) : Option (List Char) :=
  (afterBreak? (text.dropWhile isGap)).map skipBlankLines

/-- A string over several lines up to its closing quotes, and what follows. -/
def readLines? (quote : Char) (escapes : Bool) :
    (steps : Nat) → List Char → Option (List Char × List Char)
  | 0, _ => none
  | _, [] => none
  | steps + 1, c :: rest =>
    let go (front : List Char) (rest : List Char) : Option (List Char × List Char) :=
      (readLines? quote escapes steps rest).map fun (text, after) => (front ++ text, after)
    if c = quote then
      let run := 1 + (rest.takeWhile (· == quote)).length
      match quotesBeforeEnd? run with
      | some count => some (List.replicate count quote, (c :: rest).drop (count + 3))
      | none => go (List.replicate run quote) ((c :: rest).drop run)
    else
      match afterBreak? (c :: rest) with
      | some after => go ['\n'] after
      | none =>
        if c = '\\' ∧ escapes then
          match afterJoint? rest with
          | some after => go [] after
          | none => do
            let (character, after) ← readEscape? rest
            go [character] after
        else if isPrintable c then go [c] rest
        else none

/-- A string on one line or several, and what follows. -/
def readString? (text : List Char) : Option (List Char × List Char) :=
  match text with
  | '"' :: '"' :: '"' :: rest =>
    -- A line break right behind the opening quotes is left out.
    let body := (afterBreak? rest).getD rest
    readLines? '"' true (body.length + 1) body
  | '"' :: rest => readEscaped? (rest.length + 1) rest
  | '\'' :: '\'' :: '\'' :: rest =>
    let body := (afterBreak? rest).getD rest
    readLines? '\'' false (body.length + 1) body
  | '\'' :: rest => readLiteral? rest
  | _ => none

/-- Whether a character may stand in a key without quotes. -/
def isBareKey (c : Char) : Bool :=
  c.isAlphanum || c = '-' || c = '_'

/-- A key, and what follows. -/
def readKey? (text : List Char) : Option (List Char × List Char) :=
  match text with
  | '"' :: rest => readEscaped? (rest.length + 1) rest
  | '\'' :: rest => readLiteral? rest
  | _ =>
    let (bare, rest) := text.span isBareKey
    if bare.isEmpty then none else some (bare, rest)

end TomlText

end IndexAudit
