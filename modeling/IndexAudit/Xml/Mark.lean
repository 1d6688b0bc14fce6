import IndexAudit.Xml.Tag

/-!
The marks of an XML document: its tags and the texts between them.

Comments, declarations, processing instructions and document types make no marks.
-/

namespace IndexAudit

/-- A piece of an XML document. -/
inductive XmlMark where
  | opening (tag : XmlTag)
  /-- A tag that begins an element and ends it. -/
  | empty (tag : XmlTag)
  | closing (name : List Char)
  /-- Text between tags, in which references are not resolved yet. -/
  | text (raw : List Char)
  /-- Text that stands for itself. -/
  | literal (text : List Char)
deriving Repr, DecidableEq

namespace XmlMark

/-- A text up to the first angle bracket outside quotes, and what follows. -/
def readTag? (quote : Option Char) : List Char → Option (List Char × List Char)
  | [] => none
  | c :: rest =>
    let step (next : Option Char) : Option (List Char × List Char) :=
      (readTag? next rest).map fun (content, after) => (c :: content, after)
    match quote with
    -- Inside quotes a bracket is part of a value, and the other quote too.
    | some open_ => step (if c = open_ then none else quote)
    | none =>
      if c = '>' then some ([], rest)
      else step (if c = '\'' ∨ c = '"' then some c else none)

/-- A text up to the angle bracket that closes the one in front of it, and what follows. -/
def readBalanced? (depth : Nat) : List Char → Option (List Char × List Char)
  | [] => none
  | c :: rest =>
    let step (next : Nat) : Option (List Char × List Char) :=
      (readBalanced? next rest).map fun (content, after) => (c :: content, after)
    if c = '<' then step (depth + 1)
    else if c = '>' then if depth = 0 then some ([], rest) else step (depth - 1)
    else step depth

/-- What follows a document type, which must not be empty. -/
def skipDocumentType? (text : List Char) : Option (List Char) := do
  let (content, after) ← readBalanced? 0 text
  let (word, declared) := content.splitAt "DOCTYPE".length
  if word.map Char.toUpper = "DOCTYPE".toList ∧ !declared.all XmlTag.isGap then some after else none

/-- What an exclamation mark behind an angle bracket begins, and what follows. -/
def readBang? (text : List Char) : Option (Option XmlMark × List Char) :=
  match afterStart? "--".toList text with
  | some comment => (splitAtText? "-->".toList comment).map fun (_, after) => (none, after)
  | none =>
    match afterStart? "[CDATA[".toList text with
    | some rest => (splitAtText? "]]>".toList rest).map fun (inside, after) =>
      (some (.literal inside), after)
    | none => (skipDocumentType? text).map fun after => (none, after)

/-- What follows an instruction. -/
def skipInstruction? (text : List Char) : Option (List Char) :=
  if text.head? = some '>' then none else (splitAtText? "?>".toList text).map (·.2)

/-- The mark that a content between angle brackets makes. -/
def ofContent (content : List Char) : XmlMark :=
  match content.getLast? with
  -- Only a slash right in front of the closing bracket ends the element.
  | some '/' => .empty (.ofContent content.dropLast)
  | _ => .opening (.ofContent content)

/-- The name in a closing tag: white space may stand behind it, but not in its place. -/
def closingName (content : List Char) : List Char :=
  let name := dropEndWhile XmlTag.isGap content
  if name.isEmpty then content else name

/-- What an opening angle bracket begins, and what follows; what makes no mark gives none. -/
def read? : List Char → Option (Option XmlMark × List Char)
  | [] => none
  | '!' :: rest => readBang? rest
  | '/' :: rest => (readTag? none rest).map fun (content, after) =>
    (some (.closing (closingName content)), after)
  | '?' :: rest => (skipInstruction? rest).map fun after => (none, after)
  | markup => (readTag? none markup).map fun (content, after) => (some (ofContent content), after)

/-- A text between tags without the white space around it, unless nothing is left. -/
def textMark? (raw : List Char) : Option XmlMark :=
  let kept := dropEndWhile XmlTag.isGap (raw.dropWhile XmlTag.isGap)
  if kept.isEmpty then none else some (.text kept)

/-- The marks of a text of at most a number of characters. -/
def readWithin? : Nat → List Char → Option (List XmlMark)
  | 0, rest => some (textMark? rest).toList
  | length + 1, rest =>
    let (before, behind) := rest.span (· != '<')
    match behind with
    | [] => some (textMark? before).toList
    | _ :: markup => do
      let (mark, rest) ← read? markup
      some ((textMark? before).toList ++ mark.toList ++ (← readWithin? length rest))

/-- The marks of a document; a byte order mark in front of it does not count. -/
def ofText? (text : List Char) : Option (List XmlMark) :=
  let text := if text.head? = some (Char.ofNat 0xFEFF) then text.drop 1 else text
  readWithin? text.length text

end XmlMark

end IndexAudit
