import IndexAudit.Toml.Number
import IndexAudit.Toml.Quoted

/-! The statements of a TOML document: its headers and its keys with values. -/

namespace IndexAudit

/-- A statement of a document; the keys on the way stand apart from the last one. -/
inductive TomlStatement where
  | table (path : List String) (key : String)
  /-- The header of one of several tables. -/
  | tables (path : List String) (key : String)
  | entry (path : List String) (key : String) (value : TomlValue)
deriving Repr

namespace TomlStatement

open TomlText (isGap isPrintable afterBreak?)

/-- How many keys a dotted key may have, and how deep collections may lie in each other. -/
def depthLimit : Nat := 79

/-- The rest of a text behind white space. -/
def skipGaps (text : List Char) : List Char :=
  text.dropWhile isGap

/-- The rest of a text behind a comment, if one comes. -/
def skipComment (text : List Char) : List Char :=
  match text with
  | '#' :: rest => rest.dropWhile isPrintable
  | _ => text

/-- The rest of a text of at most a number of characters, behind blanks, breaks and comments. -/
def skipFillers : (length : Nat) → List Char → List Char
  | 0, text => text
  | length + 1, text =>
    match skipGaps text with
    | '#' :: rest => skipFillers length (rest.dropWhile isPrintable)
    | text =>
      match afterBreak? text with
      | some after => skipFillers length after
      | none => text

/-- The rest of a text behind blanks, breaks and comments. -/
def skipFill (text : List Char) : List Char :=
  skipFillers text.length text

/-- What follows the end of a line, which a comment may come before. -/
def afterLine? (text : List Char) : Option (List Char) :=
  match skipComment (skipGaps text) with
  | [] => some []
  | rest => afterBreak? rest

/-- The keys of a dotted key, of which there may be a number, and what follows. -/
def readKeys? : (count : Nat) → List Char → Option (List String × List Char)
  | 0, _ => none
  | count + 1, text => do
    let (key, rest) ← TomlText.readKey? (skipGaps text)
    match skipGaps rest with
    | '.' :: more =>
      let (keys, after) ← readKeys? count more
      some (String.ofList key :: keys, after)
    | after => some ([String.ofList key], after)

/-- The keys on the way and the last one of a dotted key, and what follows. -/
def readPath? (text : List Char) : Option (List String × String × List Char) := do
  let (keys, after) ← readKeys? depthLimit text
  some (keys.dropLast, ← keys.getLast?, after)

/-- What follows an equals sign. -/
def afterEquals? : List Char → Option (List Char)
  | '=' :: rest => some (skipGaps rest)
  | _ => none

/-- A truth value, and what follows. -/
def readBool? : List Char → Option (TomlValue × List Char)
  | 't' :: 'r' :: 'u' :: 'e' :: rest => some (.bool true, rest)
  | 'f' :: 'a' :: 'l' :: 's' :: 'e' :: rest => some (.bool false, rest)
  | _ => none

/-- A value without others inside it, and what follows. -/
def readPlain? (text : List Char) : Option (TomlValue × List Char) :=
  match text with
  | [] => none
  | c :: _ =>
    if c = '"' ∨ c = '\'' then
      (TomlText.readString? text).map fun (string, after) =>
        (.string (String.ofList string), after)
    else (readBool? text).or (TomlNumber.read? text)

mutual

/--
The value that a text begins with, and what follows.

`steps` bounds how far the reader may go, `depth` how deep collections may lie in each other.
-/
def readValue? (steps depth : Nat) (text : List Char) : Option (TomlValue × List Char) :=
  match steps with
  | 0 => none
  | steps + 1 =>
    match text with
    | '[' :: ']' :: rest => some (.array [], rest)
    | '[' :: rest =>
      if depth = 0 then none
      else
        (readItems? steps (depth - 1) (skipFill rest)).map fun (items, after) =>
          (.array items, after)
    | '{' :: rest =>
      if depth = 0 then none
      else
        match skipGaps rest with
        | '}' :: after => some (.table .inline [], after)
        | _ => (readPairs? steps (depth - 1) [] rest).map fun (entries, after) =>
          (.table .inline entries, after)
    | _ => readPlain? text

/-- The items of an array up to its closing bracket; a comma may come before that. -/
def readItems? (steps depth : Nat) (text : List Char) : Option (List TomlValue × List Char) :=
  match steps, text with
  | 0, _ => none
  | _, ']' :: rest => some ([], rest)
  | steps + 1, _ => do
    let (item, rest) ← readValue? steps depth text
    match skipFill rest with
    | ']' :: after => some ([item], after)
    | ',' :: rest => do
      let (items, after) ← readItems? steps depth (skipFill rest)
      some (item :: items, after)
    | _ => none

/-- The entries of a table between braces, behind others, up to its closing brace. -/
def readPairs? (steps depth : Nat) (entries : TomlEntries) (text : List Char) :
    Option (TomlEntries × List Char) :=
  match steps with
  | 0 => none
  | steps + 1 => do
    let (path, key, rest) ← readPath? text
    let (value, rest) ← readValue? steps depth (← afterEquals? rest)
    let entries ← TomlEntries.assign? path key value .inline entries
    match skipGaps rest with
    | '}' :: after => some (entries, after)
    | ',' :: rest => readPairs? steps depth entries rest
    | _ => none

end

/-- The statement of a header behind its opening brackets, and what follows its line. -/
def readHeader? (text : List Char) : Option (TomlStatement × List Char) :=
  match text with
  | '[' :: rest => do
    let (path, key, rest) ← readPath? rest
    match rest with
    | ']' :: ']' :: after => some (.tables path key, ← afterLine? after)
    | _ => none
  | _ => do
    let (path, key, rest) ← readPath? text
    match rest with
    | ']' :: after => some (.table path key, ← afterLine? after)
    | _ => none

/-- The statement of a key with its value, and what follows its line. -/
def readEntry? (text : List Char) : Option (TomlStatement × List Char) := do
  let (path, key, rest) ← readPath? text
  let value ← afterEquals? rest
  -- A value takes a step of its own and one of the collection it is in.
  let (value, rest) ← readValue? (2 * value.length + 1) depthLimit value
  some (.entry path key value, ← afterLine? rest)

/-- The statements of a text of at most a number of characters. -/
def readWithin? : (length : Nat) → List Char → Option (List TomlStatement)
  | length, text =>
    match skipGaps text with
    | [] => some []
    | c :: rest =>
      match length with
      | 0 => none
      | length + 1 =>
        match afterBreak? (c :: rest) with
        | some after => readWithin? length after
        | none =>
          if c = '#' then do readWithin? length (← afterLine? (c :: rest))
          else do
            let (statement, after) ←
              if c = '[' then readHeader? rest else readEntry? (c :: rest)
            some (statement :: (← readWithin? length after))

/-- The statements of a document, which fail to come where the text is malformed. -/
def ofText? (text : List Char) : Option (List TomlStatement) :=
  let text := if text.head? = some (Char.ofNat 0xFEFF) then text.drop 1 else text
  readWithin? text.length text

end TomlStatement

end IndexAudit
