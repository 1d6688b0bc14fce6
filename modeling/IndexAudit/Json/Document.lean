import IndexAudit.Json.Token

/-! The value of a JSON document. -/

namespace IndexAudit

namespace JsonValue

mutual

/-- The value that tokens begin with, and what follows; `steps` bounds how many are taken. -/
def read? (steps : Nat) (tokens : List JsonToken) : Option (JsonValue × List JsonToken) :=
  match steps, tokens with
  | steps + 1, token :: rest =>
    match token with
    | .null => some (.null, rest)
    | .bool value => some (.bool value, rest)
    | .number value => some (.number value, rest)
    | .string text => some (.string text, rest)
    | .openArray =>
      match rest with
      | .closeArray :: after => some (.array [], after)
      | _ => (readItems? steps rest).map fun (items, after) => (.array items, after)
    | .openObject =>
      match rest with
      | .closeObject :: after => some (.object [], after)
      | _ => (readMembers? steps rest).map fun (members, after) => (.object members, after)
    | _ => none
  | _, _ => none

/-- The items of an array up to its closing bracket. -/
def readItems? (steps : Nat) (tokens : List JsonToken) :
    Option (List JsonValue × List JsonToken) :=
  match steps with
  | 0 => none
  | steps + 1 => do
    let (item, rest) ← read? steps tokens
    match rest with
    | .closeArray :: after => some ([item], after)
    | .comma :: rest => do
      let (items, after) ← readItems? steps rest
      some (item :: items, after)
    | _ => none

/-- The members of an object up to its closing bracket. -/
def readMembers? (steps : Nat) (tokens : List JsonToken) :
    Option (List (Option String × JsonValue) × List JsonToken) :=
  match steps, tokens with
  | steps + 1, .string key :: .colon :: rest => do
    let (value, rest) ← read? steps rest
    match rest with
    | .closeObject :: after => some ([(key, value)], after)
    | .comma :: rest => do
      let (members, after) ← readMembers? steps rest
      some ((key, value) :: members, after)
    | _ => none
  | _, _ => none

end

/-- The value of a document, which fails to come where the text is malformed. -/
def ofText? (text : List Char) : Option JsonValue := do
  let tokens ← JsonToken.tokenize? text
  -- An item takes a step of the list it is in and one of its own.
  let (value, rest) ← read? (2 * tokens.length + 1) tokens
  if rest.isEmpty then some value else none

end JsonValue

end IndexAudit
