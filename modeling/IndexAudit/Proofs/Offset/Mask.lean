import IndexAudit.Proofs.Offset.Byte
import Mathlib.Data.List.Infix

/-!
Literals hidden byte by byte.

The bytes of a character inside a literal are hidden one after another, and a backslash takes along
only the first byte of the character behind it. What comes out is a text again, in which spaces stand
for whole characters.
-/

namespace IndexAudit

/-- Where a scan of bytes for literals stands. -/
inductive MaskState where
  | code
  /-- Inside of a literal between two quotes. -/
  | literal (quote : Char)
  /-- Inside of a string between triple double quotes. -/
  | raw

namespace MaskState

/-- The bytes of code with each byte inside a literal replaced by a space. -/
def mask (state : MaskState) (bytes : List Char) : List Char :=
  match bytes with
  | [] => []
  | byte :: rest =>
    match state with
    | .code =>
      if byte = '"' ∧ rest.take 2 = ['"', '"'] then '"' :: '"' :: '"' :: mask .raw (rest.drop 2)
      else if byte = '"' ∨ byte = '\'' then byte :: mask (.literal byte) rest
      else byte :: mask .code rest
    | .literal quote =>
      if byte = '\\' ∧ rest.head?.any (· != '\n') then ' ' :: ' ' :: mask (.literal quote) (rest.drop 1)
      else if byte = quote ∨ byte = '\n' then byte :: mask .code rest
      else ' ' :: mask (.literal quote) rest
    | .raw =>
      if byte = '"' ∧ rest.take 2 = ['"', '"'] then
        -- More quotes in front of the last three belong to the contents.
        if rest.take 3 = ['"', '"', '"'] then ' ' :: mask .raw rest
        else '"' :: '"' :: '"' :: mask .code (rest.drop 2)
      else (if byte = '\n' then '\n' else ' ') :: mask .raw rest
termination_by bytes.length
decreasing_by all_goals simp only [List.length_cons, List.length_drop]; omega

end MaskState

/-- A text in ASCII is in front of the bytes of another one if it is in front of that one. -/
theorem isPrefix_byteChars {front text : List Char} (ascii : ∀ c ∈ front, c.toNat < 0x80) :
    front <+: byteChars text ↔ front <+: text := by
  induction front generalizing text with
  | nil => simp
  | cons c front ih =>
    obtain ⟨here, later⟩ := List.forall_mem_cons.mp ascii
    cases text with
    | nil => simp
    | cons d text =>
      rw [byteChars_cons, List.cons_prefix_cons]
      by_cases small : d.toNat < 0x80
      · rw [byteChars_ascii small, List.singleton_append, List.cons_prefix_cons, ih later]
      · -- The first byte of a character outside of ASCII is outside of it too.
        have wide := toNat_byteChars (Nat.not_lt.mp small)
        have other : c ≠ d := fun same => small (same ▸ here)
        refine iff_of_false (fun inside => ?_) (fun both => other both.1)
        have filled : byteChars [d] ≠ [] := by
          rw [← List.length_pos_iff, length_byteChars]
          simpa [width] using Sized.positive d
        obtain ⟨byte, bytes, form⟩ := List.exists_cons_of_ne_nil filled
        rw [form, List.cons_append, List.cons_prefix_cons] at inside
        have large := wide byte (form ▸ List.mem_cons_self)
        rw [← inside.1] at large
        omega

/-- The first bytes of a text are given characters in ASCII if the first characters are. -/
theorem take_byteChars (front : List Char) (ascii : ∀ c ∈ front, c.toNat < 0x80) (text : List Char) :
    (byteChars text).take front.length = front ↔ text.take front.length = front := by
  -- To begin with given characters is to have them for a prefix.
  rw [eq_comm, ← List.prefix_iff_eq_take, isPrefix_byteChars ascii, List.prefix_iff_eq_take, eq_comm]

/-- A text begins with another byte than a line break if it begins with another character. -/
theorem head?_byteChars (text : List Char) :
    (byteChars text).head?.any (· != '\n') = text.head?.any (· != '\n') := by
  have begins : ∀ text : List Char, text.head? = some '\n' ↔ ['\n'] <+: text := by
    intro text
    cases text with
    | nil => simp
    | cons c text => simp [List.cons_prefix_cons, eq_comm]
  have empty : byteChars text = [] ↔ text = [] := by
    rw [← List.length_eq_zero_iff, length_byteChars]
    cases text with
    | nil => simp
    | cons c text =>
      have positive := Sized.positive c
      simp only [width_cons, reduceCtorEq, iff_false]
      omega
  -- A line break is a single byte, so it is the first byte exactly if it is the first character.
  have same : (byteChars text).head? = some '\n' ↔ text.head? = some '\n' := by
    rw [begins, begins, isPrefix_byteChars (by simp)]
  cases first : text.head? with
  | none => simp [List.head?_eq_none_iff.mp first]
  | some c =>
    cases byte : (byteChars text).head? with
    | none =>
      rw [List.head?_eq_none_iff, empty] at byte
      simp [byte] at first
    | some d =>
      rw [first, byte] at same
      by_cases line : c = '\n'
      · simp_all
      · have other : d ≠ '\n' := fun found => line (by simpa [found] using same)
        rw [Option.any_some, Option.any_some, bne_iff_ne.mpr other, bne_iff_ne.mpr line]

namespace MaskState

/-- Outside of literals, bytes outside of ASCII stay as they are. -/
theorem mask_code_wide {bytes : List Char} (wide : ∀ byte ∈ bytes, 0x80 ≤ byte.toNat)
    (rest : List Char) : code.mask (bytes ++ rest) = bytes ++ code.mask rest := by
  induction bytes with
  | nil => rfl
  | cons byte bytes ih =>
    obtain ⟨here, later⟩ := List.forall_mem_cons.mp wide
    -- The bytes of a longer character lie above all marks the scan looks for.
    have noQuote : byte ≠ '"' ∧ byte ≠ '\'' := by
      constructor <;> (rintro rfl; exact absurd here (by decide))
    rw [List.cons_append, mask]
    simp [noQuote, ih later]

/-- Inside of a literal, bytes outside of ASCII are hidden. -/
theorem mask_literal_wide {quote : Char} (ascii : quote.toNat < 0x80) {bytes : List Char}
    (wide : ∀ byte ∈ bytes, 0x80 ≤ byte.toNat) (rest : List Char) :
    (literal quote).mask (bytes ++ rest) =
      List.replicate bytes.length ' ' ++ (literal quote).mask rest := by
  induction bytes with
  | nil => rfl
  | cons byte bytes ih =>
    obtain ⟨here, later⟩ := List.forall_mem_cons.mp wide
    -- What a literal treats in its own way is in ASCII, so this byte is hidden.
    have apart : byte ≠ '\\' ∧ byte ≠ quote ∧ byte ≠ '\n' := by
      refine ⟨?_, ?_, ?_⟩ <;> (rintro rfl; revert here; first | decide | omega)
    rw [List.cons_append, mask]
    simp [apart, ih later, List.replicate_succ]

/-- Inside of a raw string, bytes outside of ASCII are hidden. -/
theorem mask_raw_wide {bytes : List Char} (wide : ∀ byte ∈ bytes, 0x80 ≤ byte.toNat)
    (rest : List Char) :
    raw.mask (bytes ++ rest) = List.replicate bytes.length ' ' ++ raw.mask rest := by
  induction bytes with
  | nil => rfl
  | cons byte bytes ih =>
    obtain ⟨here, later⟩ := List.forall_mem_cons.mp wide
    -- A quote and a line break are in ASCII, so this byte is neither.
    have apart : byte ≠ '"' ∧ byte ≠ '\n' := by
      constructor <;> (rintro rfl; exact absurd here (by decide))
    rw [List.cons_append, mask]
    simp [apart, ih later, List.replicate_succ]

/-- A hidden character leaves its spaces in front of what follows. -/
theorem maskedBytes_hidden (c : Char) (code : List Glyph) :
    maskedBytes (⟨c, true⟩ :: code) = List.replicate c.utf8Size ' ' ++ maskedBytes code := by
  rw [maskedBytes_cons, byteChars_hidden rfl]
  rfl

/-- A character that is not hidden leaves its bytes in front of what follows. -/
theorem maskedBytes_visible (c : Char) (code : List Glyph) :
    maskedBytes (⟨c, false⟩ :: code) = byteChars [c] ++ maskedBytes code := by
  rw [maskedBytes_cons, byteChars_visible rfl]

/-- The places of the two scans that correspond: those between whole characters and quotes. -/
inductive Stands : MaskState → LiteralState → Prop
  | code : Stands .code .code
  | string : Stands (.literal '"') .string
  | character : Stands (.literal '\'') .character
  | raw : Stands .raw .rawString

/-- From corresponding places on, the bytes of a text are hidden as its characters are. -/
def Agrees (text : List Char) : Prop :=
  ∀ state place, Stands state place → state.mask (byteChars text) = maskedBytes (place.glyphs text)

section Step

variable {c : Char} {rest : List Char}

/-- Two quotes are the first bytes of a text if they are the first characters. -/
theorem take_two_bytes (text : List Char) :
    (byteChars text).take 2 = ['"', '"'] ↔ text.take 2 = ['"', '"'] :=
  take_byteChars ['"', '"'] (by decide) text

/-- Three quotes are the first bytes of a text if they are the first characters. -/
theorem take_three_bytes (text : List Char) :
    (byteChars text).take 3 = ['"', '"', '"'] ↔ text.take 3 = ['"', '"', '"'] :=
  take_byteChars ['"', '"', '"'] (by decide) text

/-- Three quotes in front of a text are their own bytes. -/
theorem byteChars_quotes {text : List Char} (triple : text.take 2 = ['"', '"']) :
    byteChars ('"' :: text) = '"' :: '"' :: '"' :: byteChars (text.drop 2) := by
  -- The text begins with the two other quotes.
  obtain ⟨after, rfl⟩ : ∃ after, text = '"' :: '"' :: after :=
    ⟨text.drop 2, by rw [← List.take_append_drop 2 text, triple]; rfl⟩
  rfl

/-- Outside of literals, what stands at the front is hidden by its bytes as by its characters. -/
theorem mask_code (shorter : ∀ text, text.length ≤ rest.length → Agrees text) :
    code.mask (byteChars (c :: rest)) = maskedBytes (LiteralState.code.glyphs (c :: rest)) := by
  have next := shorter rest (Nat.le_refl _)
  by_cases ascii : c.toNat < 0x80
  case neg =>
    have noQuote : c ≠ '"' ∧ c ≠ '\'' := by
      constructor <;> (rintro rfl; exact ascii (by decide))
    rw [byteChars_cons, mask_code_wide (toNat_byteChars (Nat.not_lt.mp ascii)), next _ _ .code]
    simp [LiteralState.glyphs, LiteralState.step, noQuote, maskedBytes_visible]
  case pos =>
    -- Three quotes open a raw string together; one opens a literal of its own kind.
    by_cases triple : c = '"' ∧ rest.take 2 = ['"', '"']
    · obtain ⟨rfl, triple⟩ := triple
      obtain ⟨after, rfl⟩ : ∃ after, rest = '"' :: '"' :: after :=
        ⟨rest.drop 2, by rw [← List.take_append_drop 2 rest, triple]; rfl⟩
      have later := shorter after (by simp; omega) _ _ .raw
      have quote := byteChars_ascii (show '"'.toNat < 0x80 by decide)
      rw [byteChars_quotes triple, mask]
      simp [LiteralState.glyphs, LiteralState.step, maskedBytes_visible, later, quote]
    · have single : byteChars [c] = [c] := byteChars_ascii ascii
      have bytes : ¬ (c = '"' ∧ (byteChars rest).take 2 = ['"', '"']) := by rwa [take_two_bytes]
      rw [byteChars_cons, single, List.singleton_append, mask, if_neg bytes, LiteralState.glyphs,
        LiteralState.step, if_neg triple, maskedBytes_visible, single]
      by_cases double : c = '"'
      · simp [double, next _ _ .string]
      · by_cases one : c = '\''
        · simp [one, next _ _ .character]
        · simp [double, one, next _ _ .code]

/-- Inside of a literal, the bytes of a character behind its first one are hidden. -/
theorem mask_literal_drop {quote : Char} (ascii : quote.toNat < 0x80) (d : Char) (after : List Char) :
    (literal quote).mask ((byteChars (d :: after)).drop 1) =
      List.replicate (d.utf8Size - 1) ' ' ++ (literal quote).mask (byteChars after) := by
  have size : (byteChars [d]).length = d.utf8Size :=
    (length_byteChars [d]).trans (by simp [Sized.size])
  rw [byteChars_cons]
  -- A character outside of ASCII has more bytes, and none of them ends the literal.
  by_cases small : d.toNat < 0x80
  · rw [byteChars_ascii small, utf8Size_ascii small]
    rfl
  · have wide := toNat_byteChars (Nat.not_lt.mp small)
    have positive := d.utf8Size_pos
    obtain ⟨byte, bytes, form⟩ := List.exists_cons_of_length_pos (size ▸ positive)
    rw [form] at size wide ⊢
    rw [List.cons_append, List.drop_one, List.tail_cons,
      mask_literal_wide ascii (List.forall_mem_cons.mp wide).2, ← size, List.length_cons,
      Nat.add_sub_cancel]

/-- Inside of a literal, what stands at the front is hidden by its bytes as by its characters. -/
theorem mask_literal {quote : Char} {place : LiteralState} (escape : LiteralState)
    (ascii : quote.toNat < 0x80) (stands : Stands (literal quote) place)
    (steps : ∀ c rest, place.step c rest =
      if c = '\\' ∧ rest.head?.any (· != '\n') then (true, escape)
      else if c = quote ∨ c = '\n' then (false, .code) else (true, place))
    (escapes : ∀ c rest, escape.step c rest = (true, place))
    (shorter : ∀ text, text.length ≤ rest.length → Agrees text) :
    (literal quote).mask (byteChars (c :: rest)) = maskedBytes (place.glyphs (c :: rest)) := by
  have next := shorter rest (Nat.le_refl _)
  by_cases small : c.toNat < 0x80
  case neg =>
    have apart : c ≠ '\\' ∧ c ≠ quote ∧ c ≠ '\n' := by
      refine ⟨?_, ?_, ?_⟩ <;> (rintro rfl; revert small; first | decide | omega)
    rw [byteChars_cons, mask_literal_wide ascii (toNat_byteChars (Nat.not_lt.mp small)),
      next _ _ stands, LiteralState.glyphs, steps]
    simp [apart, maskedBytes_hidden, length_byteChars, Sized.size]
  case pos =>
    have single : byteChars [c] = [c] := byteChars_ascii small
    rw [byteChars_cons, single, List.singleton_append, mask, head?_byteChars, LiteralState.glyphs,
      steps]
    by_cases backslash : c = '\\' ∧ rest.head?.any (· != '\n') = true
    · -- The backslash takes along the first byte of the next character; the others are hidden too.
      obtain ⟨d, after, rfl⟩ : ∃ d after, rest = d :: after := by
        cases rest with
        | nil => simp at backslash
        | cons d after => exact ⟨d, after, rfl⟩
      have later := shorter after (Nat.le_succ _) _ _ stands
      obtain ⟨more, size⟩ : ∃ more, d.utf8Size = more + 1 :=
        ⟨d.utf8Size - 1, (Nat.sub_add_cancel d.utf8Size_pos).symm⟩
      rw [if_pos backslash, if_pos backslash, mask_literal_drop ascii, later, LiteralState.glyphs,
        escapes]
      simp [maskedBytes_hidden, size, utf8Size_ascii small, List.replicate_succ]
    · rw [if_neg backslash, if_neg backslash]
      by_cases ends : c = quote ∨ c = '\n'
      · rw [if_pos ends, if_pos ends, next _ _ .code, maskedBytes_visible, single]
        rfl
      · rw [if_neg ends, if_neg ends, next _ _ stands, maskedBytes_hidden, utf8Size_ascii small]
        rfl

/-- Inside of a raw string, what stands at the front is hidden by its bytes as by its characters. -/
theorem mask_raw (shorter : ∀ text, text.length ≤ rest.length → Agrees text) :
    raw.mask (byteChars (c :: rest)) = maskedBytes (LiteralState.rawString.glyphs (c :: rest)) := by
  have next := shorter rest (Nat.le_refl _)
  by_cases ascii : c.toNat < 0x80
  case neg =>
    have apart : c ≠ '"' ∧ c ≠ '\n' := by
      constructor <;> (rintro rfl; exact ascii (by decide))
    rw [byteChars_cons, mask_raw_wide (toNat_byteChars (Nat.not_lt.mp ascii)), next _ _ .raw]
    simp [LiteralState.glyphs, LiteralState.step, apart, maskedBytes_hidden, length_byteChars,
      Sized.size]
  case pos =>
    have single : byteChars [c] = [c] := byteChars_ascii ascii
    by_cases triple : c = '"' ∧ rest.take 2 = ['"', '"']
    · have bytes : c = '"' ∧ (byteChars rest).take 2 = ['"', '"'] := by rwa [take_two_bytes]
      by_cases longer : rest.take 3 = ['"', '"', '"']
      · -- The first of four quotes belongs to the contents.
        have more := (take_three_bytes rest).mpr longer
        have step : LiteralState.rawString.step c rest = (true, .rawString) := by
          simp [LiteralState.step, longer, triple.1]
        rw [byteChars_cons, single, List.singleton_append, mask, if_pos bytes, if_pos more,
          LiteralState.glyphs, step, maskedBytes_hidden, utf8Size_ascii ascii, next _ _ .raw]
        rfl
      · have less : ¬ (byteChars rest).take 3 = ['"', '"', '"'] := by rwa [take_three_bytes]
        have step : LiteralState.rawString.step c rest = (false, .rawClosing 2) := by
          simp [LiteralState.step, longer, triple]
        obtain ⟨rfl, triple⟩ := triple
        obtain ⟨after, rfl⟩ : ∃ after, rest = '"' :: '"' :: after :=
          ⟨rest.drop 2, by rw [← List.take_append_drop 2 rest, triple]; rfl⟩
        have later := shorter after (by simp; omega) _ _ .code
        have behind : (byteChars ('"' :: '"' :: after)).drop 2 = byteChars after := rfl
        rw [byteChars_cons, single, List.singleton_append, mask, if_pos bytes, if_neg less,
          LiteralState.glyphs, step, behind, later]
        simp [LiteralState.glyphs, LiteralState.step, maskedBytes_visible, single]
    · have bytes : ¬ (c = '"' ∧ (byteChars rest).take 2 = ['"', '"']) := by rwa [take_two_bytes]
      rw [byteChars_cons, single, List.singleton_append, mask, if_neg bytes, LiteralState.glyphs]
      have stays : ¬ (c = '"' ∧ rest.take 2 = ['"', '"'] ∧ rest.take 3 ≠ ['"', '"', '"']) :=
        fun closes => triple ⟨closes.1, closes.2.1⟩
      rw [LiteralState.step, if_neg stays, next _ _ .raw]
      by_cases ends : c = '\n'
      · obtain rfl := ends
        rw [if_pos rfl, decide_eq_false (by simp), maskedBytes_visible, single]
        rfl
      · rw [if_neg ends, decide_eq_true ends, maskedBytes_hidden, utf8Size_ascii ascii]
        rfl

end Step

/-- From corresponding places on, the bytes of any text are hidden as its characters are. -/
theorem agrees (text : List Char) : Agrees text := by
  -- A step takes up to three characters, so the induction is on the length of the text.
  induction size : text.length using Nat.strong_induction_on generalizing text with
  | _ size ih =>
    intro state place stands
    match text with
    | [] => cases stands <;> simp [mask, LiteralState.glyphs]
    | c :: rest =>
      have shorter : ∀ text : List Char, text.length ≤ rest.length → Agrees text := by
        intro text within
        exact ih text.length (by rw [← size, List.length_cons]; omega) text rfl
      cases stands with
      | code => exact mask_code shorter
      | raw => exact mask_raw shorter
      | string =>
        exact mask_literal .stringEscape (by decide) .string (fun _ _ => rfl)
          (fun _ _ => rfl) shorter
      | character =>
        exact mask_literal .characterEscape (by decide) .character (fun _ _ => rfl)
          (fun _ _ => rfl) shorter

/-- The bytes of code are hidden as its characters are, and what comes out is a text again. -/
theorem mask_ofCode (text : List Char) :
    code.mask (byteChars text) = maskedBytes (Glyph.ofCode text) :=
  -- Both maskings run in step from the state of code on.
  agrees text _ _ .code

end MaskState

end IndexAudit
