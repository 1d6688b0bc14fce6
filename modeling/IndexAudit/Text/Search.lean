import IndexAudit.Text.Blank

/-! Texts found at the start of other texts and inside them. -/

namespace IndexAudit

/-- What follows a text at the start of another one. -/
def afterStart? : List Char → List Char → Option (List Char)
  | [], text => some text
  | _ :: _, [] => none
  | c :: start, d :: text => if c = d then afterStart? start text else none

/-- What comes before and behind the first occurrence of a text in another one. -/
def splitAtText? (pattern : List Char) : List Char → Option (List Char × List Char)
  | [] => if pattern = [] then some ([], []) else none
  | c :: rest =>
    match afterStart? pattern (c :: rest) with
    | some after => some ([], after)
    | none => (splitAtText? pattern rest).map fun (before, after) => (c :: before, after)

/-- What follows a text at the start of another one is no longer than that one. -/
theorem afterStart?_length {start text after : List Char}
    (found : afterStart? start text = some after) : after.length ≤ text.length := by
  induction start generalizing text with
  | nil =>
    cases found
    exact Nat.le_refl _
  | cons c start ih =>
    cases text with
    | nil => cases found
    | cons d text =>
      -- Equal first characters are both passed, and otherwise nothing is found.
      by_cases same : c = d
      · rw [afterStart?, if_pos same] at found
        exact Nat.le_succ_of_le (ih found)
      · rw [afterStart?, if_neg same] at found
        cases found

/--
A text with each occurrence of a pattern replaced by another text, from left to right.

The pattern is the character and the text behind it.
-/
def replaceAll (first : Char) (more replacement : List Char) : List Char → List Char
  | [] => []
  | c :: rest =>
    if c = first then
      match found : afterStart? more rest with
      | some after =>
        have : after.length < rest.length + 1 :=
          Nat.lt_succ_of_le (afterStart?_length found)
        replacement ++ replaceAll first more replacement after
      | none => c :: replaceAll first more replacement rest
    else c :: replaceAll first more replacement rest
termination_by text => text.length

/-- Whether a character counts towards a word; only ASCII characters do. -/
def isWordChar (c : Char) : Bool :=
  c.isAlphanum || c = '_'

/-- Whether a name may begin with a character; only ASCII characters may. -/
def isNameStart (c : Char) : Bool :=
  c.isAlpha || c = '_'

/-- The name that a text ends in, in front of white space, and what comes before that name. -/
def trailingName? (text : List Char) : Option (List Char × List Char) :=
  let kept := dropEndWhile isAsciiBlank text
  let word := (kept.reverse.takeWhile isWordChar).reverse
  -- A name does not begin with a digit, so leading digits belong to what comes before.
  let name := word.dropWhile Char.isDigit
  if name.isEmpty then none else some (kept.take (kept.length - name.length), name)

end IndexAudit
