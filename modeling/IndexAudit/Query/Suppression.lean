import IndexAudit.Code.Line
import IndexAudit.Text.Search
import IndexAudit.Text.Lowercase

/-! Comments that keep columns of the method behind them out of the result. -/

namespace IndexAudit

/-- A comment that suppresses columns of the next method. -/
structure Suppression where
  line : Nat
  /-- The suppressed columns in lower case; an empty list suppresses every column. -/
  columns : List String
deriving Repr, DecidableEq

namespace Suppression

/-- The words that make a comment a suppression. -/
def directive : List Char := "idxlint:ignore".toList

/-- What follows the first directive in a comment that no longer word goes on from. -/
def afterDirective? : List Char → Option (List Char)
  | [] => none
  | c :: rest =>
    match afterStart? directive (c :: rest) with
    | some after =>
      -- A longer word is no directive, but one may still come behind it.
      if after.head?.any isWordChar then afterDirective? rest else some after
    | none => afterDirective? rest

/-- The text between the brackets that follow a directive, if they close on the same line. -/
def arguments? (after : List Char) : Option (List Char) :=
  match after.dropWhile isAsciiBlank with
  | '(' :: rest => if rest.contains ')' then some (rest.takeWhile (· != ')')) else none
  | _ => none

/--
The texts between pairs of double quotes.

`inside` holds the text since an opening quote, in reverse order.
-/
def quotedTexts (inside : Option (List Char)) : List Char → List (List Char)
  | [] => []
  | c :: rest =>
    match inside with
    | none => quotedTexts (if c = '"' then some [] else none) rest
    | some text =>
      if c = '"' then text.reverse :: quotedTexts none rest else quotedTexts (some (c :: text)) rest

/-- The columns that the arguments of a directive name, in lower case. -/
def columnsOf (arguments : List Char) : List String :=
  ((quotedTexts none arguments).map fun text => String.ofList (lowerChars (trim text))).filter
    (· != "")

/-- The suppression that a line's comment holds, if it holds one. -/
def ofLine? (line : SourceLine) : Option Suppression := do
  let after ← afterDirective? line.comment
  some ⟨line.number, ((arguments? after).map columnsOf).getD []⟩

/-- The suppressions of a source text, in order. -/
def ofLines (lines : List SourceLine) : List Suppression :=
  lines.filterMap ofLine?

/-- Whether a suppression concerns a column. -/
def covers (suppression : Suppression) (column : String) : Bool :=
  suppression.columns.isEmpty || suppression.columns.contains (lower column)

/-- The joint effect of several suppressions of one method; one without columns wins. -/
def combine (line : Nat) (list : List Suppression) : Option Suppression :=
  if list.isEmpty then none
  else if list.any (·.columns.isEmpty) then some ⟨line, []⟩
  else some ⟨line, list.flatMap (·.columns)⟩

/-- The joint suppression of a member on a line, and what is left for the members behind it. -/
def take (pending : List Suppression) (line : Nat) : Option Suppression × List Suppression :=
  (combine line (pending.takeWhile (·.line ≤ line)), pending.dropWhile (·.line ≤ line))

end Suppression

end IndexAudit
