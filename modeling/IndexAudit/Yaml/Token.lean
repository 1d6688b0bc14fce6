/-! The tokens of YAML documents. -/

namespace IndexAudit

/-- A token of a document's text; those that have no text of their own stem from indentation. -/
inductive YamlToken where
  | version (major minor : Nat)
  | tagHandle (handle expansion : List Char)
  | documentStart
  | documentEnd
  | blockSequenceStart
  | blockMappingStart
  | blockEnd
  | flowSequenceStart
  | flowSequenceEnd
  | flowMappingStart
  | flowMappingEnd
  /-- The dash in front of an item. -/
  | blockEntry
  /-- The comma behind an item. -/
  | flowEntry
  | key
  | value
  | alias (name : List Char)
  | anchor (name : List Char)
  | tag (handle ending : List Char)
  | scalar (text : List Char) (plain : Bool)
  | streamEnd
deriving Repr, DecidableEq

end IndexAudit
