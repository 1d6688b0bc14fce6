import IndexAudit.Xml.Mark

/-! The tree of elements of an XML document. -/

namespace IndexAudit

/-- An element; names are without namespaces, and `text` is all text directly inside it. -/
inductive XmlElement where
  | element (name : String) (attributes : List (String × String)) (text : String)
    (children : List XmlElement)
deriving Repr

/-- An element that is not closed yet; its children are in reverse order. -/
structure OpenElement where
  /-- The name as written, which the closing tag repeats. -/
  written : List Char
  attributes : List (String × String)
  text : List Char
  children : List XmlElement

namespace XmlElement

def name : XmlElement → String
  | .element name _ _ _ => name

def attributes : XmlElement → List (String × String)
  | .element _ attributes _ _ => attributes

def text : XmlElement → String
  | .element _ _ text _ => text

def children : XmlElement → List XmlElement
  | .element _ _ _ children => children

/-- The value of the first attribute of a name. -/
def attribute? (element : XmlElement) (key : String) : Option String :=
  element.attributes.lookup key

/-- Whether an attribute says true. -/
def flag (element : XmlElement) (key : String) : Bool :=
  (element.attribute? key).any saysTrue

/-- The children of a name, in order. -/
def childrenNamed (element : XmlElement) (name : String) : List XmlElement :=
  element.children.filter (·.name == name)

end XmlElement

namespace OpenElement

/-- An element that a tag begins. -/
def ofTag? (tag : XmlTag) : Option OpenElement :=
  tag.attributes?.map fun attributes => ⟨tag.name, attributes, [], []⟩

/-- The element as it is when its closing tag comes. -/
def finish (opened : OpenElement) : XmlElement :=
  .element (String.ofList (XmlTag.localName opened.written)) opened.attributes
    (String.ofList opened.text) opened.children.reverse

/-- The element with more text behind what it has. -/
def addText (opened : OpenElement) (text : List Char) : OpenElement :=
  { opened with text := opened.text ++ text }

/-- The element with one more child. -/
def addChild (opened : OpenElement) (child : XmlElement) : OpenElement :=
  { opened with children := child :: opened.children }

end OpenElement

/-- The elements that are open, innermost first, and the last one closed outside all others. -/
structure XmlForest where
  opened : List OpenElement
  root : Option XmlElement

namespace XmlForest

/-- The forest after an element is closed. -/
def close (forest : XmlForest) (done : XmlElement) : XmlForest :=
  match forest.opened with
  | [] => { forest with root := some done }
  | outer :: rest => { forest with opened := outer.addChild done :: rest }

/-- The forest with more text in the innermost open element; elsewhere text says nothing. -/
def addText? (forest : XmlForest) (text? : Option (List Char)) : Option XmlForest :=
  match forest.opened with
  | [] => some forest
  | inner :: rest => text?.map fun text => { forest with opened := inner.addText text :: rest }

/-- The forest after one more mark, which fails if a closing tag closes nothing. -/
def add? (forest : XmlForest) : XmlMark → Option XmlForest
  | .opening tag => do
    let opened ← OpenElement.ofTag? tag
    some { forest with opened := opened :: forest.opened }
  | .empty tag => do
    let opened ← OpenElement.ofTag? tag
    some (forest.close opened.finish)
  | .closing name =>
    match forest.opened with
    | [] => none
    | inner :: rest =>
      -- Names are compared as written, with their namespaces.
      if inner.written = name then some ({ forest with opened := rest }.close inner.finish)
      else none
  | .text raw => forest.addText? (XmlReference.expand? raw)
  | .literal text => forest.addText? (some text)

end XmlForest

namespace XmlElement

/-- The last of the elements that marks make up, all of which must be closed. -/
def ofMarks? (marks : List XmlMark) : Option XmlElement := do
  let forest ← marks.foldlM XmlForest.add? ⟨[], none⟩
  if forest.opened.isEmpty then forest.root else none

/-- The root element of a document, which fails to come where the text is malformed. -/
def ofText? (text : List Char) : Option XmlElement := do
  ofMarks? (← XmlMark.ofText? text)

end XmlElement

end IndexAudit
