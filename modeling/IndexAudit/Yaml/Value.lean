import IndexAudit.Decimal.Shortest
import IndexAudit.Text.Blank

/-! Values of YAML and JSON documents. -/

namespace IndexAudit

/-- A number in a document. -/
inductive YamlNumber where
  | integer (value : Int)
  | finite (value : Binary64)
  | infinite (negative : Bool)
  | notANumber
deriving Repr, DecidableEq

/-- A value of a document. -/
inductive YamlValue where
  | null
  | bool (value : Bool)
  | number (value : YamlNumber)
  | string (text : String)
  | sequence (items : List YamlValue)
  /-- Keys are any values; each occurs once, in the order of the document. -/
  | mapping (entries : List (YamlValue × YamlValue))
  /-- A value under a tag of the document's own. -/
  | tagged (tag : String) (value : YamlValue)
deriving Repr

namespace YamlNumber

/-- Whether two numbers are the same key. -/
def same : YamlNumber → YamlNumber → Bool
  | .finite a, .finite b => a.same b
  | a, b => a == b

/-- The text of a number. -/
def text : YamlNumber → String
  | .integer value => toString value
  | .finite value => String.ofList value.text
  | .infinite false => ".inf"
  | .infinite true => "-.inf"
  | .notANumber => ".nan"

end YamlNumber

namespace YamlValue

mutual

/-- Whether two values are the same key; the order of entries does not count. -/
def same : YamlValue → YamlValue → Bool
  | .null, .null => true
  | .bool a, .bool b => a == b
  | .number a, .number b => a.same b
  | .string a, .string b => a == b
  | .sequence a, .sequence b => sameItems a b
  | .mapping a, .mapping b => a.length == b.length && sameEntries a b
  | .tagged tag a, .tagged other b => tag == other && same a b
  | _, _ => false

/-- Whether two sequences hold the same values in the same order. -/
def sameItems : List YamlValue → List YamlValue → Bool
  | [], [] => true
  | a :: as, b :: bs => same a b && sameItems as bs
  | _, _ => false

/-- Whether each entry of one mapping has an equal one among those of another. -/
def sameEntries : List (YamlValue × YamlValue) → List (YamlValue × YamlValue) → Bool
  | [], _ => true
  | (key, value) :: rest, others =>
    others.any (fun other => same key other.1 && same value other.2) && sameEntries rest others

end

/-- A value without the tags around it. -/
def untagged : YamlValue → YamlValue
  | .tagged _ value => untagged value
  | value => value

/-- The value under a string key, if the value is a mapping; tags around it do not count. -/
def get? (value : YamlValue) (key : String) : Option YamlValue :=
  match value.untagged with
  | .mapping entries =>
    (entries.find? fun entry =>
      match entry.1 with
      | .string text => text == key
      | _ => false).map (·.2)
  | _ => none

/-- The items of a sequence; tags around it do not count. -/
def items? (value : YamlValue) : Option (List YamlValue) :=
  match value.untagged with
  | .sequence items => some items
  | _ => none

/-- The text of a string; tags around it do not count. -/
def string? (value : YamlValue) : Option String :=
  match value.untagged with
  | .string text => some text
  | _ => none

/-- The text of a string, number or truth value without a tag. -/
def scalarText? : YamlValue → Option String
  | .string text => some text
  | .number value => some value.text
  | .bool true => some "true"
  | .bool false => some "false"
  | _ => none

/-- The text under a key, if a string, number or truth value without a tag is there. -/
def textAt? (value : YamlValue) (key : String) : Option String :=
  (value.get? key).bind scalarText?

/-- Whether the value under a key is true, or a text that says so in any letter case. -/
def flag (value : YamlValue) (key : String) : Bool :=
  match value.get? key with
  | some (.bool set) => set
  | some (.string text) => saysTrue text
  | _ => false

end YamlValue

end IndexAudit
