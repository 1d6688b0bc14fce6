import IndexAudit.Text.Search
import Mathlib.Data.List.Infix

/-!
Searches in texts, and the pieces that texts are divided into.

A text is found in another one exactly where it is a part of it.
-/

namespace IndexAudit

/-- A text is found at the start of another one exactly where it is in front of what follows. -/
theorem afterStart?_eq_some_iff {start text after : List Char} :
    afterStart? start text = some after ↔ start ++ after = text := by
  -- Both texts are read one character at a time.
  induction start generalizing text with
  | nil => simp [afterStart?, eq_comm]
  | cons c start ih =>
    cases text with
    | nil => simp [afterStart?]
    | cons d text =>
      by_cases same : c = d
      · simp [afterStart?, same, ih]
      · simp [afterStart?, same]

/-- What follows a text is found behind it. -/
@[simp] theorem afterStart?_append (start after : List Char) :
    afterStart? start (start ++ after) = some after :=
  afterStart?_eq_some_iff.mpr rfl

/-- A text is found at the start of another one exactly where it is in front of it. -/
theorem afterStart?_isSome_iff {start text : List Char} :
    (afterStart? start text).isSome = true ↔ start <+: text := by
  simp [Option.isSome_iff_exists, afterStart?_eq_some_iff, List.IsPrefix]

/-- A text is found somewhere in another one exactly where it is a part of it. -/
theorem splitAtText?_isSome_iff {pattern text : List Char} :
    (splitAtText? pattern text).isSome = true ↔ pattern <:+: text := by
  induction text with
  | nil =>
    by_cases empty : pattern = []
    · simp [splitAtText?, empty]
    · simp [splitAtText?, empty]
  | cons c rest ih =>
    rw [List.infix_cons_iff, ← afterStart?_isSome_iff, ← ih, splitAtText?]
    -- The first place is tried first, and the others only behind it.
    cases afterStart? pattern (c :: rest) with
    | none => simp
    | some after => simp

/-- A character goes in front of what stands before a text that is found. -/
theorem map_cons_eq_some_iff {found : Option (List Char × List Char)} {c d : Char}
    {before after : List Char} :
    (found.map fun (before, after) => (c :: before, after)) = some (d :: before, after) ↔
      c = d ∧ found = some (before, after) := by
  -- Two pairs are the same if both parts are.
  cases found with
  | none => simp
  | some pair => simp [Prod.ext_iff, and_assoc]

/-- A text is found where it stands first, and what it leaves is what stands around it there. -/
theorem splitAtText?_eq_some_iff {pattern text before after : List Char} (filled : pattern ≠ []) :
    splitAtText? pattern text = some (before, after) ↔
      before ++ pattern ++ after = text ∧ ¬ pattern <:+: before ++ pattern.dropLast := by
  have shorter : pattern.dropLast.length < pattern.length := by
    rw [List.length_dropLast]
    exact Nat.sub_one_lt (List.length_pos_iff.mpr filled).ne'
  induction text generalizing before with
  | nil => simp [splitAtText?, filled]
  | cons c rest ih =>
    rw [splitAtText?]
    cases found : afterStart? pattern (c :: rest) with
    | some behind =>
      have whole := afterStart?_eq_some_iff.mp found
      constructor
      · intro same
        obtain ⟨rfl, rfl⟩ := Prod.mk.inj (Option.some.inj same)
        refine ⟨by simpa using whole, fun inside => ?_⟩
        exact absurd inside.length_le (Nat.not_le.mpr shorter)
      · rintro ⟨same, absent⟩
        cases before with
        | nil => rw [List.append_cancel_left (whole.trans same.symm)]
        | cons d before =>
          -- It would stand in front of where it is said to stand first.
          refine absurd (List.IsPrefix.isInfix ?_) absent
          have begins : pattern <+: c :: rest := ⟨behind, whole⟩
          have other : d :: before ++ pattern.dropLast <+: c :: rest := by
            rw [← same, List.append_assoc]
            exact (List.prefix_append_right_inj _).mpr
              ((List.dropLast_prefix pattern).trans (List.prefix_append _ _))
          refine List.prefix_of_prefix_length_le begins other ?_
          simp only [List.length_append, List.length_cons, List.length_dropLast]
          omega
    | none =>
      have notHere : ¬ pattern <+: c :: rest := by
        rw [← afterStart?_isSome_iff, found]
        simp
      cases before with
      | nil =>
        constructor
        · intro same
          obtain ⟨_, _, same⟩ := Option.map_eq_some_iff.mp same
          cases same
        · rintro ⟨same, _⟩
          exact absurd ⟨after, same⟩ notHere
      | cons d before =>
        have later : splitAtText? pattern rest = some (before, after) ↔ _ := ih
        rw [map_cons_eq_some_iff, later, List.cons_append, List.cons_append, List.cons_append, List.cons.injEq,
          List.infix_cons_iff, not_or]
        constructor
        · rintro ⟨rfl, same, absent⟩
          refine ⟨⟨rfl, same⟩, fun begins => notHere (begins.trans ?_), absent⟩
          rw [← same, List.append_assoc]
          exact List.cons_prefix_cons.mpr ⟨rfl, (List.prefix_append_right_inj _).mpr
            ((List.dropLast_prefix pattern).trans (List.prefix_append _ _))⟩
        · rintro ⟨⟨rfl, same⟩, -, absent⟩
          exact ⟨rfl, same, absent⟩

/-! Replacement of a pattern, which is only looked for at its first character. -/

section Replacement

variable {first : Char} {more replacement : List Char}

/-- Nothing is replaced in an empty text. -/
@[simp] theorem replaceAll_nil : replaceAll first more replacement [] = [] := by
  rw [replaceAll]

/-- Any other character is kept. -/
theorem replaceAll_cons_ne {c : Char} (apart : c ≠ first) (rest : List Char) :
    replaceAll first more replacement (c :: rest) = c :: replaceAll first more replacement rest := by
  -- The pattern begins with another character.
  rw [replaceAll, if_neg apart]

/-- The first character is kept where the rest of the pattern does not follow. -/
theorem replaceAll_cons_none {rest : List Char} (absent : afterStart? more rest = none) :
    replaceAll first more replacement (first :: rest) =
      first :: replaceAll first more replacement rest := by
  rw [replaceAll, if_pos rfl]
  -- The pattern was looked for behind the first character, and is not there.
  split
  · next found => rw [absent] at found; cases found
  · rfl

/-- The pattern is replaced where it stands. -/
theorem replaceAll_pattern (after : List Char) :
    replaceAll first more replacement (first :: (more ++ after)) =
      replacement ++ replaceAll first more replacement after := by
  -- The pattern is found behind its first character, and leaves what is after.
  have here := afterStart?_append more after
  rw [replaceAll, if_pos rfl]
  split
  · next found =>
    obtain rfl := Option.some.inj (here.symm.trans found)
    rfl
  · next found => rw [here] at found; cases found

/-- What does not hold the first character is kept. -/
theorem replaceAll_append_of_notMem {front : List Char} (apart : first ∉ front) (back : List Char) :
    replaceAll first more replacement (front ++ back) =
      front ++ replaceAll first more replacement back := by
  induction front with
  | nil => rfl
  | cons c front ih =>
    -- The character begins no pattern, so it is kept, and the others likewise.
    obtain ⟨here, later⟩ := List.ne_and_not_mem_of_not_mem_cons apart
    rw [List.cons_append, replaceAll_cons_ne (Ne.symm here), ih later, List.cons_append]

end Replacement

/-! The pieces that separators divide a list into. -/

section Pieces

variable {α : Type} [DecidableEq α] {separator : α}

/-- A separator is in no piece. -/
theorem notMem_of_mem_splitOn {list piece : List α} (member : piece ∈ list.splitOn separator) :
    separator ∉ piece := by
  -- A separator begins a new piece, and anything else is put in front of the first one.
  induction list generalizing piece with
  | nil => simp_all
  | cons x rest ih =>
    rw [List.splitOn_cons_eq_if_modifyHead] at member
    split at member
    · rcases List.mem_cons.mp member with rfl | later
      · simp
      · exact ih later
    · rename_i apart
      cases pieces : rest.splitOn separator with
      | nil => exact absurd pieces (List.splitOn_ne_nil _ _)
      | cons first others =>
        rw [pieces] at member
        rcases List.mem_cons.mp member with rfl | later
        · have inFirst := ih (pieces ▸ List.mem_cons_self : first ∈ rest.splitOn separator)
          rw [List.mem_cons, not_or]
          exact ⟨fun same => apart (by simp [← same]), inFirst⟩
        · exact ih (pieces ▸ List.mem_cons_of_mem first later)

/-- The first piece goes on through all that no separator divides. -/
theorem head?_splitOn {word : List α} (apart : separator ∉ word) (after : List α) :
    ∃ piece, ((word ++ after).splitOn separator)[0]? = some piece ∧ word <+: piece := by
  -- The piece ends at the first separator behind the word, or at the end of the text.
  by_cases ends : separator ∈ after
  · obtain ⟨front, back, rfl, inFront⟩ := List.eq_append_cons_of_mem ends
    refine ⟨word ++ front, ?_, List.prefix_append word front⟩
    have whole : separator ∉ word ++ front := by simp [apart, inFront]
    rw [← List.append_assoc, List.splitOn_append_cons_self, List.splitOn_eq_singleton whole]
    rfl
  · refine ⟨word ++ after, ?_, List.prefix_append word after⟩
    have whole : separator ∉ word ++ after := by simp [apart, ends]
    rw [List.splitOn_eq_singleton whole]
    rfl

/-- What stands behind a number of separators is part of the piece with that number. -/
theorem getElem?_splitOn {word : List α} (apart : separator ∉ word) (before after : List α) :
    ∃ piece, ((before ++ word ++ after).splitOn separator)[before.count separator]? = some piece ∧
      word <:+: piece := by
  induction before with
  | nil =>
    obtain ⟨piece, found, begins⟩ := head?_splitOn apart after
    exact ⟨piece, found, begins.isInfix⟩
  | cons x before ih =>
    obtain ⟨piece, found, inside⟩ := ih
    rw [List.cons_append, List.cons_append, List.splitOn_cons_eq_if_modifyHead]
    by_cases same : x = separator
    · exact ⟨piece, by simpa [same] using found, inside⟩
    · -- Any other character is put in front of the first piece.
      rw [if_neg (by simpa using same), List.count_cons_of_ne same, List.getElem?_modifyHead, found]
      by_cases first : before.count separator = 0
      · exact ⟨x :: piece, by simp [first], inside.trans (List.suffix_cons x piece).isInfix⟩
      · exact ⟨piece, by simp [first], inside⟩

end Pieces

/-! ASCII characters, of which something holds if it holds of each of them. -/

/-- What holds of each character below `0x80` holds of one that is known to be there. -/
theorem ascii_imp {p : Char → Bool} {c : Char} (ascii : c.toNat < 0x80)
    (all : (List.range 0x80).all (fun code => p (Char.ofNat code)) = true) : p c = true := by
  -- The character is the one of its number, and that is in the range.
  have here := List.all_eq_true.mp all c.toNat (List.mem_range.mpr ascii)
  rwa [Char.ofNat_toNat] at here

/-- Letters and digits, as far as names have them, are in ASCII. -/
theorem toNat_of_isAlphanum {c : Char} (plain : c.isAlphanum = true) : c.toNat < 0x80 := by
  -- All three ranges of codes lie below 128.
  unfold Char.isAlphanum Char.isAlpha Char.isUpper Char.isLower Char.isDigit at plain
  simp only [Bool.or_eq_true, Bool.and_eq_true, decide_eq_true_eq, UInt32.le_iff_toNat_le,
    ge_iff_le] at plain
  change ((65 ≤ c.toNat ∧ c.toNat ≤ 90) ∨ (97 ≤ c.toNat ∧ c.toNat ≤ 122)) ∨
    (48 ≤ c.toNat ∧ c.toNat ≤ 57) at plain
  omega

/-- A character that counts towards a word is in ASCII. -/
theorem toNat_of_isWordChar {c : Char} (word : isWordChar c = true) : c.toNat < 0x80 := by
  simp only [isWordChar, Bool.or_eq_true, decide_eq_true_eq] at word
  -- It is a letter or digit, or the underscore.
  rcases word with plain | rfl
  · exact toNat_of_isAlphanum plain
  · decide

end IndexAudit
