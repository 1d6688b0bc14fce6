import IndexAudit.Code.AnnotationUse
import IndexAudit.Code.Line

/-! The members that stand side by side at the top level of a body. -/

namespace IndexAudit

/-- One stretch of a body, up to a semicolon, a line break outside brackets, or a block. -/
structure Segment where
  code : List Glyph
  /-- The line on which it begins. -/
  line : Nat
  /-- Whether a block ends it, the block itself being left out. -/
  opensBlock : Bool
deriving Repr, DecidableEq

namespace Segment

/-- The nesting of round and square brackets after a character; curly ones are blocks. -/
def depthAfter (depth : Nat) (c : Char) : Nat :=
  if c = '(' ∨ c = '[' then depth + 1
  else if c = ')' ∨ c = ']' then depth - 1
  else depth

/-- How many line breaks code holds. -/
def lineBreaks (code : List Glyph) : Nat :=
  (Glyph.text code).count '\n'

/-- What follows the block that opens at the start of code; an open block has nothing behind it. -/
def afterBlock (code : List Glyph) : List Glyph :=
  match Glyph.closeIndex code with
  | some close => code.drop (close + 1)
  | none => []

/-- What follows a block is shorter than what it begins. -/
theorem afterBlock_length {code : List Glyph} (filled : code ≠ []) :
    (afterBlock code).length < code.length := by
  -- If the block is closed, its bracket at least is dropped; if not, nothing is left.
  have positive := List.length_pos_iff.2 filled
  unfold afterBlock
  split
  · rw [List.length_drop]
    omega
  · exact positive

/--
The segments of a body.

`start` is the line on which the current segment began and `current` what it holds so far, in
reverse order.
`runsOn` says of a segment cut at a line break that it goes on behind it.
-/
def collect (runsOn : List Char → Bool) (start depth : Nat) (current : List Glyph)
    (code : List Glyph) : List Segment :=
  match code with
  | [] => [⟨current.reverse, start, false⟩]
  | glyph :: rest =>
    let c := glyph.shown
    let soFar := current.reverse
    if depth = 0 ∧ c = '{' then
      -- The block is skipped as a whole, but the lines in it still count.
      have : (afterBlock (glyph :: rest)).length < rest.length + 1 :=
        afterBlock_length (List.cons_ne_nil glyph rest)
      let after := afterBlock (glyph :: rest)
      let next := start + lineBreaks soFar +
        (lineBreaks (glyph :: rest) - lineBreaks after)
      ⟨soFar, start, true⟩ :: collect runsOn next 0 [] after
    -- Inside brackets neither a semicolon nor a line break ends anything.
    else if depth = 0 ∧ (c = ';' ∨ (c = '\n' ∧ ¬ runsOn (Glyph.shownText soFar))) then
      ⟨soFar, start, false⟩ ::
        collect runsOn (start + lineBreaks soFar + if c = '\n' then 1 else 0) 0 [] rest
    else collect runsOn start (depthAfter depth c) (glyph :: current) rest
termination_by code.length

/-- Whether a segment holds nothing but white space. -/
def isBlankCode (code : List Glyph) : Bool :=
  code.all (isBlank ·.shown)

end Segment

end IndexAudit
