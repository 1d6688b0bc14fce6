import IndexAudit.Code.Glyph

/-! The values of the string literals in a run of code. -/

namespace IndexAudit

namespace Literal

/-- What a plain string means: a backslash takes the special meaning off the next character. -/
def unescape : List Char → List Char
  | [] => []
  | '\\' :: c :: rest =>
    (if c = 'n' then '\n' else if c = 't' then '\t' else if c = 'r' then '\r' else c) ::
      unescape rest
  | c :: rest => c :: unescape rest

/-- How a character is written inside a plain string. -/
def escapeChar (c : Char) : List Char :=
  if c = '\\' then ['\\', '\\']
  else if c = '"' then ['\\', '"']
  else if c = '\n' then ['\\', 'n']
  else if c = '\t' then ['\\', 't']
  else if c = '\r' then ['\\', 'r']
  else [c]

/-- A text written as a plain string literal. -/
def render (value : List Char) : List Char :=
  ['"'] ++ value.flatMap escapeChar ++ ['"']

/-- Whether three quotes that are not themselves hidden come next. -/
def startsTriple : List Glyph → Bool
  | a :: b :: c :: _ => a.shown == '"' && b.shown == '"' && c.shown == '"'
  | _ => false

/--
The contents of a raw string and what follows its closing quotes.

The last three of a run of quotes close it.
-/
def rawBody : List Glyph → Option (List Char × List Glyph)
  | [] => none
  | glyph :: rest =>
    if startsTriple (glyph :: rest) && !startsTriple rest then some ([], rest.drop 2)
    else (rawBody rest).map fun (body, after) => (glyph.char :: body, after)

/-- The contents of a plain string and what follows its closing quote. -/
def plainBody : List Glyph → Option (List Char × List Glyph)
  | [] => none
  | glyph :: rest =>
    if glyph.shown = '"' then some ([], rest)
    else (plainBody rest).map fun (body, after) => (glyph.char :: body, after)

/-- What follows a raw string is shorter than what it begins. -/
theorem rawBody_length {code : List Glyph} {body : List Char} {after : List Glyph}
    (found : rawBody code = some (body, after)) : after.length < code.length := by
  induction code generalizing body after with
  | nil => simp [rawBody] at found
  | cons glyph rest ih =>
    -- Either the closing quotes are dropped here, or the body goes on behind one glyph.
    simp only [rawBody] at found
    split at found
    · cases found
      simp only [List.length_drop, List.length_cons]
      omega
    · simp only [Option.map_eq_some_iff, Prod.mk.injEq] at found
      obtain ⟨⟨inner, tail⟩, inside, _, rfl⟩ := found
      have := ih inside
      simp only [List.length_cons]
      omega

/-- What follows a plain string is shorter than what it begins. -/
theorem plainBody_length {code : List Glyph} {body : List Char} {after : List Glyph}
    (found : plainBody code = some (body, after)) : after.length < code.length := by
  induction code generalizing body after with
  | nil => simp [plainBody] at found
  | cons glyph rest ih =>
    -- Either the quote is dropped here, or the body goes on behind one glyph.
    simp only [plainBody] at found
    split at found
    · cases found
      simp
    · simp only [Option.map_eq_some_iff, Prod.mk.injEq] at found
      obtain ⟨⟨inner, tail⟩, inside, _, rfl⟩ := found
      have := ih inside
      simp only [List.length_cons]
      omega

/--
The values of the string literals in a run of code, in order.

Raw strings mean what they hold, plain ones are unescaped.
A literal that the run does not close ends the search.
-/
def values (code : List Glyph) : List (List Char) :=
  match code with
  | [] => []
  | glyph :: rest =>
    if glyph.shown ≠ '"' then values rest
    else if startsTriple (glyph :: rest) then
      match found : rawBody (rest.drop 2) with
      | none => []
      | some (body, after) =>
        have : after.length < rest.length + 1 := by
          have := rawBody_length found
          simp only [List.length_drop] at this
          omega
        body :: values after
    else
      match found : plainBody rest with
      | none => []
      | some (body, after) =>
        have : after.length < rest.length + 1 := by
          have := plainBody_length found
          omega
        unescape body :: values after
termination_by code.length

end Literal

end IndexAudit
