import IndexAudit.Json.Value
import IndexAudit.Text.Numeral

/-! JSON values written over several lines, each item on lines of its own. -/

namespace IndexAudit

namespace JsonValue

/-- The value of a natural number. -/
def ofNat (number : Nat) : JsonValue :=
  .number ⟨false, Nat.toDigits 10 number, [], none⟩

/-- The value of a text. -/
def ofString (text : String) : JsonValue :=
  .string (some text)

/-- An object with members in a given order. -/
def ofMembers (members : List (String × JsonValue)) : JsonValue :=
  .object (members.map fun member => (some member.1, member.2))

/-- A character as it is written in a string. -/
def writeChar (c : Char) : List Char :=
  match c with
  | '"' => ['\\', '"']
  | '\\' => ['\\', '\\']
  | '\x08' => ['\\', 'b']
  | '\x0c' => ['\\', 'f']
  | '\n' => ['\\', 'n']
  | '\r' => ['\\', 'r']
  | '\t' => ['\\', 't']
  | _ =>
    if c.toNat < 0x20 then
      ['\\', 'u', '0', '0', Numeral.digitChar (c.toNat / 16), Numeral.digitChar (c.toNat % 16)]
    else [c]

/-- A text between quotes. -/
def writeString (text : String) : List Char :=
  '"' :: text.toList.flatMap writeChar ++ ['"']

/-- A number as a document writes it. -/
def writeNumber (number : JsonNumber) : List Char :=
  let sign := if number.negative then ['-'] else []
  let fraction := if number.fraction.isEmpty then [] else '.' :: number.fraction
  let exponent := match number.exponent with
    | none => []
    | some exponent => 'e' :: (toString exponent).toList
  sign ++ number.whole ++ fraction ++ exponent

/-- A new line that begins at a depth. -/
def newLine (depth : Nat) : List Char :=
  '\n' :: List.replicate (2 * depth) ' '

mutual

/-- A value at a depth; a string without a text is written as an empty one. -/
def write (depth : Nat) : JsonValue → List Char
  | .null => "null".toList
  | .bool true => "true".toList
  | .bool false => "false".toList
  | .number value => writeNumber value
  | .string text => writeString (text.getD "")
  | .array [] => ['[', ']']
  | .array (item :: rest) =>
    '[' :: newLine (depth + 1) ++ write (depth + 1) item ++ writeItems (depth + 1) rest ++
      newLine depth ++ [']']
  | .object [] => ['{', '}']
  | .object ((key, value) :: rest) =>
    '{' :: newLine (depth + 1) ++ writeString (key.getD "") ++ ':' :: ' ' ::
      write (depth + 1) value ++ writeMembers (depth + 1) rest ++ newLine depth ++ ['}']

/-- The items of an array behind the first one. -/
def writeItems (depth : Nat) : List JsonValue → List Char
  | [] => []
  | item :: rest => ',' :: newLine depth ++ write depth item ++ writeItems depth rest

/-- The members of an object behind the first one. -/
def writeMembers (depth : Nat) : List (Option String × JsonValue) → List Char
  | [] => []
  | (key, value) :: rest =>
    ',' :: newLine depth ++ writeString (key.getD "") ++ ':' :: ' ' :: write depth value ++
      writeMembers depth rest

end

/-- The text of a value over several lines. -/
def indented (value : JsonValue) : String :=
  String.ofList (write 0 value)

end JsonValue

end IndexAudit
