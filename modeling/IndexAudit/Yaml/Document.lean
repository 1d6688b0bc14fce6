import IndexAudit.Yaml.Node
import IndexAudit.Yaml.Scalar
import IndexAudit.Yaml.Token.Lexer

/-!
The value of a YAML document.

Aliases stand for what their anchors mark, tags decide what scalars stand for, and no key may
occur twice in a mapping.
-/

namespace IndexAudit

namespace YamlNode

/-- A node in which each alias is the number of the anchor that it refers to. -/
inductive Numbered where
  | alias (number : Nat)
  | scalar (tag : Option (List Char)) (text : List Char) (plain : Bool)
  | sequence (tag : Option (List Char)) (items : List Numbered)
  | mapping (tag : Option (List Char)) (entries : List (Numbered × Numbered))

/-- What is known of anchors while a document is gone through. -/
structure Numbering where
  /-- The number under which each name is known. -/
  names : List (List Char × Nat)
  /-- The place of the node under each number, latest first. -/
  places : List (Nat × Nat)
  /-- How many nodes have begun. -/
  begun : Nat

/-- The numbering after a node has begun, which an anchor may mark. -/
def Numbering.begin (numbering : Numbering) (anchor : Option (List Char)) : Numbering :=
  match anchor with
  | none => { numbering with begun := numbering.begun + 1 }
  | some name =>
    -- A name that is marked again takes the next number, without making one more name.
    let number := numbering.names.length
    { names := (name, number) :: numbering.names.filter (·.1 != name)
      places := (number, numbering.begun) :: numbering.places
      begun := numbering.begun + 1 }

mutual

/-- A node with its aliases numbered, unless one refers to no anchor before it. -/
def number? (numbering : Numbering) : YamlNode → Option (Numbered × Numbering)
  | .alias name => do
    some (.alias (← numbering.names.lookup name), numbering.begin none)
  | .scalar properties text plain =>
    some (.scalar properties.tag text plain, numbering.begin properties.anchor)
  | .sequence properties items => do
    let (items, after) ← numberItems? (numbering.begin properties.anchor) items
    some (.sequence properties.tag items, after)
  | .mapping properties entries => do
    let (entries, after) ← numberEntries? (numbering.begin properties.anchor) entries
    some (.mapping properties.tag entries, after)

/-- The items of a sequence with their aliases numbered. -/
def numberItems? (numbering : Numbering) :
    List YamlNode → Option (List Numbered × Numbering)
  | [] => some ([], numbering)
  | item :: rest => do
    let (item, between) ← number? numbering item
    let (items, after) ← numberItems? between rest
    some (item :: items, after)

/-- The entries of a mapping with their aliases numbered. -/
def numberEntries? (numbering : Numbering) :
    List (YamlNode × YamlNode) → Option (List (Numbered × Numbered) × Numbering)
  | [] => some ([], numbering)
  | (key, value) :: rest => do
    let (key, between) ← number? numbering key
    let (value, behind) ← number? between value
    let (entries, after) ← numberEntries? behind rest
    some ((key, value) :: entries, after)

end

namespace Numbered

mutual

/-- The nodes of a tree in the order in which they begin. -/
def all : Numbered → List Numbered
  | .sequence tag items => .sequence tag items :: allItems items
  | .mapping tag entries => .mapping tag entries :: allEntries entries
  | node => [node]

/-- The nodes of a sequence's items in the order in which they begin. -/
def allItems : List Numbered → List Numbered
  | [] => []
  | item :: rest => all item ++ allItems rest

/-- The nodes of a mapping's entries in the order in which they begin. -/
def allEntries : List (Numbered × Numbered) → List Numbered
  | [] => []
  | (key, value) :: rest => all key ++ all value ++ allEntries rest

end

/-- How many marks a node makes in a document: a collection has one at either end. -/
def marks : Numbered → Nat
  | .sequence .. => 2
  | .mapping .. => 2
  | _ => 1

/-- The node that an alias stands for. -/
def target? (nodes : List Numbered) (places : List (Nat × Nat)) (number : Nat) :
    Option Numbered := do
  nodes[← places.lookup number]?

/-- A tag of a document's own, which its value keeps. -/
def ownTag? (tag : Option (List Char)) : Option String :=
  tag.bind fun text =>
    match text with
    | ['!'] => some "!"
    | '!' :: rest => some (String.ofList rest)
    | _ => none

/-- A value under the tag of its node, if that is one of the document's own. -/
def withTag (tag : Option (List Char)) (value : YamlValue) : YamlValue :=
  match ownTag? tag with
  | some name => .tagged name value
  | none => value

/-- What a scalar stands for. -/
def scalarValue? (tag : Option (List Char)) (text : List Char) (plain : Bool) :
    Option YamlValue :=
  let string := String.ofList text
  let value := if plain then YamlScalar.plain? string else some (.string string)
  match tag with
  | none => value
  | some kind =>
    if (ownTag? tag).isSome then value.map (withTag tag)
    else YamlScalar.ofKind? (String.ofList kind) string

/-- Adds an entry behind others, unless its key is there already. -/
def addEntry? (entries : List (YamlValue × YamlValue)) (key value : YamlValue) :
    Option (List (YamlValue × YamlValue)) :=
  if entries.any (·.1.same key) then none else some (entries ++ [(key, value)])

/--
The value of a node, and how many aliases may still be followed.

`depth` bounds how deep collections may lie in each other.
-/
def value? (nodes : List Numbered) (places : List (Nat × Nat)) :
    (depth left : Nat) → Numbered → Option (YamlValue × Nat)
  | depth, left, node => do
    let (node, left) ←
      match node with
      -- Each step through an alias counts, so that aliases cannot make a document explode.
      | .alias number =>
        if left = 0 then none else (target? nodes places number).map (·, left - 1)
      | _ => some (node, left)
    match node, depth with
    | .alias _, _ => none
    | .scalar tag text plain, _ => (scalarValue? tag text plain).map (·, left)
    | _, 0 => none
    | .sequence tag items, depth + 1 => do
      let (values, left) ← items.foldlM
        (fun (values, left) item => do
          let (value, left) ← value? nodes places depth left item
          some (values ++ [value], left))
        (([] : List YamlValue), left)
      some (withTag tag (.sequence values), left)
    | .mapping tag entries, depth + 1 => do
      let (values, left) ← entries.foldlM
        (fun (values, left) entry => do
          let (key, left) ← value? nodes places depth left entry.1
          let (value, left) ← value? nodes places depth left entry.2
          some (← addEntry? values key value, left))
        (([] : List (YamlValue × YamlValue)), left)
      some (withTag tag (.mapping values), left)
termination_by depth => depth

end Numbered

end YamlNode

namespace YamlValue

/-- How deep collections may lie in each other. -/
def depthLimit : Nat := 128

/-- How many aliases may be followed for each mark of a document. -/
def aliasesPerMark : Nat := 100

/-- The value of a node and all it holds. -/
def ofNode? (node : YamlNode) : Option YamlValue := do
  let (numbered, numbering) ← YamlNode.number? ⟨[], [], 0⟩ node
  let nodes := numbered.all
  let marks := (nodes.map (·.marks)).foldr (· + ·) 0
  let (value, _) ←
    YamlNode.Numbered.value? nodes numbering.places depthLimit (aliasesPerMark * marks) numbered
  some value

/-- The value of a YAML text, which fails to come where the text is malformed. -/
def ofText? (text : List Char) : Option YamlValue := do
  ofNode? (← YamlNode.ofTokens? (← YamlToken.tokenize? text))

end YamlValue

end IndexAudit
