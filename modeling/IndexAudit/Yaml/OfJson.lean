import IndexAudit.Json.Value
import IndexAudit.Yaml.Value

/-! A JSON document taken as a YAML one. -/

namespace IndexAudit

namespace YamlValue

/-- Writes an entry under a key into entries in the order of their keys. -/
def putMember (key : String) (value : YamlValue) :
    List (String × YamlValue) → List (String × YamlValue)
  | [] => [(key, value)]
  | entry :: rest =>
    if key < entry.1 then (key, value) :: entry :: rest
    else if key = entry.1 then (key, value) :: rest
    else entry :: putMember key value rest

/-- The number that a JSON number is read as, unless it is too great. -/
def numberOfJson? (number : JsonNumber) : Option YamlNumber :=
  match number.integer? with
  | some value => some (.integer value)
  | none => number.binary?.map .finite

mutual

/-- The value that a JSON value is read as; the last of several members of one name counts. -/
def ofJson? : JsonValue → Option YamlValue
  | .null => some .null
  | .bool value => some (.bool value)
  | .number value => (numberOfJson? value).map .number
  | .string text => text.map .string
  | .array items => (ofItems? items).map .sequence
  | .object members => (ofMembers? members []).map fun entries =>
    .mapping (entries.map fun entry => (.string entry.1, entry.2))

/-- The values that the items of an array are read as. -/
def ofItems? : List JsonValue → Option (List YamlValue)
  | [] => some []
  | item :: rest => do
    let value ← ofJson? item
    some (value :: (← ofItems? rest))

/-- The entries that members are read as, in the order of their names. -/
def ofMembers? : List (Option String × JsonValue) → List (String × YamlValue) →
    Option (List (String × YamlValue))
  | [], entries => some entries
  | (key, member) :: rest, entries => do
    let value ← ofJson? member
    ofMembers? rest (putMember (← key) value entries)

end

/-- How deep collections of a JSON document may lie in each other. -/
def jsonDepthLimit : Nat := 127

/-- The value that a whole JSON document is read as, unless it lies too deep. -/
def ofJsonDocument? (document : JsonValue) : Option YamlValue :=
  if document.depth ≤ jsonDepthLimit then ofJson? document else none

end YamlValue

end IndexAudit
