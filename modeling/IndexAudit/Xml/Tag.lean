import IndexAudit.Text.Search
import IndexAudit.Xml.Reference

/-! The names and attributes in the tags of an XML document. -/

namespace IndexAudit

/-- A tag that begins an element. -/
structure XmlTag where
  /-- The name as written, with its namespace. -/
  name : List Char
  /-- What stands behind the name. -/
  rest : List Char
deriving Repr, DecidableEq

namespace XmlTag

/-- Whether a character is white space in markup. -/
def isGap (c : Char) : Bool :=
  c = ' ' || c = '\r' || c = '\n' || c = '\t'

/-- A name without its namespace. -/
def localName (name : List Char) : List Char :=
  match name.dropWhile (· != ':') with
  | [] => name
  | _ :: behind => behind

/-- The tag that a content between angle brackets makes. -/
def ofContent (content : List Char) : XmlTag where
  name := content.takeWhile (!isGap ·)
  rest := content.dropWhile (!isGap ·)

/-- An attribute's key up to its equals sign, and what follows that sign. -/
def readKey? (first : Char) (text : List Char) : Option (List Char × List Char) :=
  let (more, behind) := text.span fun c => !(c = '=' || isGap c)
  match behind.dropWhile isGap with
  | '=' :: after => some (first :: more, after)
  | _ => none

/-- An attribute's value between its quotes, and what follows. -/
def readValue? (text : List Char) : Option (List Char × List Char) :=
  match text.dropWhile isGap with
  | [] => none
  | quote :: rest =>
    if quote = '"' ∨ quote = '\'' then
      let (value, behind) := rest.span (· != quote)
      match behind with
      | [] => none
      | _ :: after => some (value, after)
    else none

/-- The attributes in a text of at most a number of characters; no key may occur twice. -/
def readAttributes? (keys : List (List Char)) :
    Nat → List Char → Option (List (List Char × List Char))
  | 0, text => if (text.dropWhile isGap).isEmpty then some [] else none
  | length + 1, text =>
    match text.dropWhile isGap with
    | [] => some []
    | first :: rest => do
      let (key, rest) ← readKey? first rest
      if keys.contains key then none
      else
        let (raw, rest) ← readValue? rest
        let value ← XmlReference.expand? raw
        some ((key, value) :: (← readAttributes? (key :: keys) length rest))

/-- The attributes of a tag, each under its name without a namespace. -/
def attributes? (tag : XmlTag) : Option (List (String × String)) :=
  (readAttributes? [] tag.rest.length tag.rest).map fun found =>
    found.map fun entry => (String.ofList (localName entry.1), String.ofList entry.2)

end XmlTag

end IndexAudit
