import IndexAudit.Proofs.Offset.Byte

/-!
Texts looked for in the bytes of code.

A text in ASCII without spaces is found at the offset of its first character, since no byte of another
character and no space in place of a hidden one begins it.
-/

namespace IndexAudit

/-- The offset at which a text first occurs. -/
def textIndex? (pattern : List Char) : List Char → Option Nat
  | [] => none
  | c :: rest =>
    if pattern.isPrefixOf (c :: rest) then some 0 else (textIndex? pattern rest).map (· + 1)

/-- A text stands where it is found. -/
theorem isPrefix_of_textIndex? {pattern text : List Char} {index : Nat}
    (found : textIndex? pattern text = some index) : pattern <+: text.drop index := by
  induction text generalizing index with
  | nil => cases found
  | cons c rest ih =>
    rw [textIndex?] at found
    split at found
    case isTrue here =>
      cases found
      exact List.isPrefixOf_iff_prefix.mp here
    -- Found further on, the text stands in the rest, one place less behind.
    case isFalse =>
      obtain ⟨later, behind, rfl⟩ := Option.map_eq_some_iff.mp found
      exact ih behind

/-- A text that a search may look for: no characters but those in ASCII, and no space. -/
def IsPattern (pattern : List Char) : Prop :=
  ∀ c ∈ pattern, c.toNat < 0x80 ∧ c ≠ ' '

/-- Which texts may be looked for is decided by their characters. -/
instance (pattern : List Char) : Decidable (IsPattern pattern) :=
  inferInstanceAs (Decidable (∀ c ∈ pattern, c.toNat < 0x80 ∧ c ≠ ' '))

/-- The bytes of code begin with a text that is looked for if its characters do. -/
theorem isPrefixOf_maskedBytes {pattern : List Char} (isPattern : IsPattern pattern)
    (code : List Glyph) :
    pattern.isPrefixOf (maskedBytes code) = pattern.isPrefixOf (Glyph.shownText code) := by
  induction pattern generalizing code with
  | nil => rfl
  | cons c pattern ih =>
    obtain ⟨⟨ascii, noSpace⟩, later⟩ := List.forall_mem_cons.mp isPattern
    cases code with
    | nil => rfl
    | cons glyph rest =>
      obtain ⟨bytes, front, size, form⟩ := exists_byteForm glyph rest
      rw [front, Glyph.shownText, List.map_cons]
      cases form with
      | single one =>
        rw [List.singleton_append, List.isPrefixOf, List.isPrefixOf, ih later]
        rfl
      -- A filler stands for a character that is not in the text, and none of its bytes is either.
      | filler fills all _ =>
        have filled : bytes ≠ [] := by
          rw [← List.length_pos_iff, size]
          exact Sized.positive glyph
        obtain ⟨byte, more, rfl⟩ := List.exists_cons_of_ne_nil filled
        have first : (c == byte) = false :=
          beq_false_of_ne ((all byte List.mem_cons_self).ne ascii noSpace).symm
        have second : (c == glyph.shown) = false := beq_false_of_ne (fills.ne ascii noSpace).symm
        simp [List.isPrefixOf, first, second]

/-- Nothing that is looked for begins among bytes that fill. -/
theorem textIndex?_fillers {c : Char} {pattern fillers : List Char} (isPattern : IsPattern (c :: pattern))
    (fills : ∀ byte ∈ fillers, IsFiller byte) (rest : List Char) :
    textIndex? (c :: pattern) (fillers ++ rest) =
      (textIndex? (c :: pattern) rest).map (· + fillers.length) := by
  obtain ⟨⟨ascii, noSpace⟩, -⟩ := List.forall_mem_cons.mp isPattern
  induction fillers with
  | nil => simp
  | cons byte fillers ih =>
    obtain ⟨here, later⟩ := List.forall_mem_cons.mp fills
    -- The first character of the pattern is neither a space nor a byte of a longer character.
    have other : (c == byte) = false := beq_false_of_ne (here.ne ascii noSpace).symm
    rw [List.cons_append, textIndex?, List.isPrefixOf, other, ih later]
    simp [Function.comp_def, Nat.add_assoc]

/-- A text is found in the bytes of code at the offset at which its first character begins. -/
theorem textIndex?_bytes (c : Char) (pattern : List Char) (isPattern : IsPattern (c :: pattern))
    (code : List Glyph) :
    textIndex? (c :: pattern) (maskedBytes code) =
      (textIndex? (c :: pattern) (Glyph.shownText code)).map fun index => width (code.take index) := by
  induction code with
  | nil => rfl
  | cons glyph code ih =>
    have shown : Glyph.shownText (glyph :: code) = glyph.shown :: Glyph.shownText code := rfl
    obtain ⟨bytes, front, size, form⟩ := exists_byteForm glyph code
    cases form with
    -- One byte for one character: the text begins here on both sides or on neither.
    | single one =>
      have begins := isPrefixOf_maskedBytes isPattern (glyph :: code)
      rw [front, shown, List.singleton_append] at begins
      rw [front, shown, List.singleton_append, textIndex?, textIndex?, begins, ih]
      split
      · rfl
      · simp [one, Function.comp_def, Nat.add_comm]
    -- The text begins at no byte of the filler, and the offset grows by all of them.
    | filler fills all _ =>
      obtain ⟨⟨ascii, noSpace⟩, -⟩ := List.forall_mem_cons.mp isPattern
      have other : (c == glyph.shown) = false := beq_false_of_ne (fills.ne ascii noSpace).symm
      rw [front, textIndex?_fillers isPattern all, ih, shown, textIndex?, List.isPrefixOf, other]
      simp [size, Function.comp_def, Nat.add_comm]

/-- A character that is nowhere found is none of the text. -/
theorem takeWhile_of_textIndex?_none {c : Char} {text : List Char} (missing : textIndex? [c] text = none) :
    text.takeWhile (· != c) = text := by
  induction text with
  | nil => rfl
  | cons d text ih =>
    rw [textIndex?] at missing
    split at missing
    case isTrue => cases missing
    -- The first character is another one, and the rest has none either.
    case isFalse other =>
      have apart : (d != c) = true :=
        bne_iff_ne.mpr fun same => other (by simp [List.isPrefixOf, same])
      rw [List.takeWhile_cons, if_pos apart, ih (by simpa using missing)]

/-- What stands in front of the first place of a character is all without it. -/
theorem takeWhile_of_textIndex? {c : Char} {text : List Char} {index : Nat}
    (found : textIndex? [c] text = some index) :
    text.takeWhile (· != c) = text.take index ∧ index < text.length := by
  induction text generalizing index with
  | nil => cases found
  | cons d text ih =>
    rw [textIndex?] at found
    split at found
    case isTrue here =>
      have same : c = d := by simpa [List.isPrefixOf] using here
      cases found
      simp [same]
    -- The first character is another one, so the place is that in the rest, one further on.
    case isFalse other =>
      have apart : (d != c) = true :=
        bne_iff_ne.mpr fun same => other (by simp [List.isPrefixOf, same])
      obtain ⟨later, behind, rfl⟩ := Option.map_eq_some_iff.mp found
      obtain ⟨taken, within⟩ := ih behind
      exact ⟨by rw [List.takeWhile_cons, if_pos apart, taken]; rfl, by simpa using within⟩

/-- The first place of a character is where its byte is found, or it is in none. -/
theorem textIndex?_cases {c : Char} (ascii : c.toNat < 0x80) (noSpace : c ≠ ' ') (code : List Glyph) :
    (textIndex? [c] (maskedBytes code) = none ∧ code.dropWhile (·.shown != c) = []) ∨
      ∃ glyph back, glyph.shown = c ∧ code.dropWhile (·.shown != c) = glyph :: back ∧
        textIndex? [c] (maskedBytes code) = some (width (code.takeWhile (·.shown != c))) := by
  have isPattern : IsPattern [c] := List.forall_mem_cons.mpr ⟨⟨ascii, noSpace⟩, by simp⟩
  have bytes := textIndex?_bytes _ _ isPattern code
  have length : (code.takeWhile (·.shown != c)).length = ((Glyph.shownText code).takeWhile (· != c)).length := by
    rw [Glyph.shownText, List.takeWhile_map, List.length_map]
    rfl
  have whole : code.takeWhile (·.shown != c) ++ code.dropWhile (·.shown != c) = code :=
    List.takeWhile_append_dropWhile
  have front := List.takeWhile_prefix (·.shown != c) (l := code)
  cases found : textIndex? [c] (Glyph.shownText code) with
  -- Nowhere: all the code is in front.
  | none =>
    rw [takeWhile_of_textIndex?_none found, Glyph.shownText, List.length_map] at length
    rw [found] at bytes
    rw [front.eq_of_length length] at whole
    exact .inl ⟨bytes, List.self_eq_append_right.mp whole.symm⟩
  | some index =>
    obtain ⟨taken, within⟩ := takeWhile_of_textIndex? found
    rw [taken, List.length_take_of_le (Nat.le_of_lt within)] at length
    -- Both ways to cut off the front leave the same number of characters.
    have same : code.take index = code.takeWhile (·.shown != c) := by
      rw [← length]
      exact (List.prefix_iff_eq_take.mp front).symm
    rw [found, Option.map_some, same] at bytes
    cases behind : code.dropWhile (·.shown != c) with
    | nil =>
      rw [behind, List.append_nil] at whole
      rw [Glyph.shownText, List.length_map, ← whole, length] at within
      exact absurd within (Nat.lt_irrefl _)
    | cons glyph back =>
      have stops := List.head?_dropWhile_not (·.shown != c) code
      rw [behind] at stops
      exact .inr ⟨glyph, back, by simpa using stops, rfl, bytes⟩

end IndexAudit
