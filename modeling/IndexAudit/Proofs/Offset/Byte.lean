import IndexAudit.Code.Bracket
import IndexAudit.Proofs.Offset.Slice

/-!
The bytes of a text, and of code in which the contents of literals are hidden.

Searches look at single bytes. A byte outside of ASCII is none of the characters that they look for,
and neither is a space in place of a hidden character.
-/

namespace IndexAudit

/-- The bytes of a text, each as the character with its number. -/
def byteChars (text : List Char) : List Char :=
  text.flatMap fun c => (String.utf8EncodeChar c).map fun byte => Char.ofNat byte.toNat

/-- The bytes of code with its literals hidden. -/
def maskedBytes (code : List Glyph) : List Char :=
  byteChars (code.flatMap Glyph.masked)

/-- No text has no bytes. -/
@[simp] theorem byteChars_nil : byteChars [] = [] :=
  rfl

/-- The bytes of the first character come first. -/
theorem byteChars_cons (c : Char) (text : List Char) :
    byteChars (c :: text) = byteChars [c] ++ byteChars text := by
  simp [byteChars]

/-- The bytes of texts behind each other. -/
@[simp] theorem byteChars_append (front back : List Char) :
    byteChars (front ++ back) = byteChars front ++ byteChars back :=
  List.flatMap_append

/-- No code has no bytes. -/
@[simp] theorem maskedBytes_nil : maskedBytes [] = [] :=
  rfl

/-- The bytes of the first character of code come first. -/
theorem maskedBytes_cons (glyph : Glyph) (code : List Glyph) :
    maskedBytes (glyph :: code) = byteChars glyph.masked ++ maskedBytes code := by
  simp [maskedBytes]

/-- The bytes of stretches of code behind each other. -/
@[simp] theorem maskedBytes_append (front back : List Glyph) :
    maskedBytes (front ++ back) = maskedBytes front ++ maskedBytes back := by
  simp [maskedBytes]

/-- A character in ASCII takes up one byte. -/
theorem utf8Size_ascii {c : Char} (ascii : c.toNat < 0x80) : c.utf8Size = 1 :=
  -- The size of a character is told by its number.
  Char.utf8Size_eq_one_iff.mpr (UInt32.le_iff_toNat_le.mpr (Nat.lt_succ_iff.mp ascii))

/-- A character in ASCII is its only byte. -/
theorem byteChars_ascii {c : Char} (ascii : c.toNat < 0x80) : byteChars [c] = [c] := by
  -- The only byte of the character is its number.
  have single := utf8Size_ascii ascii
  have byte : c.toUInt8.toNat = c.toNat :=
    (UInt32.toNat_toUInt8 c.val).trans (Nat.mod_eq_of_lt (Nat.lt_trans ascii (by decide)))
  simp [byteChars, String.utf8EncodeChar_eq_singleton single, byte]

/-- Each byte of a character outside of ASCII is outside of ASCII. -/
theorem toNat_byteChars {c : Char} (wide : 0x80 ≤ c.toNat) :
    ∀ byte ∈ byteChars [c], 0x80 ≤ byte.toNat := by
  have large : ¬ c.val.toNat ≤ 127 := Nat.not_le.mpr wide
  have high : ∀ number, 0x80 ≤ number → number < 256 →
      0x80 ≤ (Char.ofNat (UInt8.ofNat number).toNat).toNat := by
    intro number above below
    have valid : number.isValidChar := .inl (by omega)
    rw [UInt8.toNat_ofNat_of_lt' below, Char.ofNat, dif_pos valid]
    exact above
  simp only [byteChars, List.flatMap_cons, List.flatMap_nil, List.append_nil, List.forall_mem_map]
  -- The form of two, three or four bytes sets the highest bit of each of them.
  intro byte listed
  unfold String.utf8EncodeChar at listed
  extract_lets number at listed
  rw [if_neg large] at listed
  split at listed
  case isTrue =>
    simp only [List.mem_cons, List.not_mem_nil, or_false] at listed
    rcases listed with rfl | rfl <;> exact high _ (by omega) (by omega)
  case isFalse =>
    split at listed
    case isTrue =>
      simp only [List.mem_cons, List.not_mem_nil, or_false] at listed
      rcases listed with rfl | rfl | rfl <;> exact high _ (by omega) (by omega)
    case isFalse =>
      simp only [List.mem_cons, List.not_mem_nil, or_false] at listed
      rcases listed with rfl | rfl | rfl | rfl <;> exact high _ (by omega) (by omega)

/-- A text has as many bytes as it takes up. -/
theorem length_byteChars (text : List Char) : (byteChars text).length = width text := by
  -- By induction on the text, as characters take up what their bytes are.
  induction text with
  | nil => rfl
  | cons c text ih =>
    rw [byteChars_cons, List.length_append, ih, width_cons]
    simp [byteChars, Sized.size]

/-- A hidden character leaves a space for each of its bytes. -/
theorem byteChars_hidden {glyph : Glyph} (hidden : glyph.hidden = true) :
    byteChars glyph.masked = List.replicate (Sized.size glyph) ' ' := by
  -- A space is one byte, so as many spaces are as many bytes.
  have spaces : ∀ count, byteChars (List.replicate count ' ') = List.replicate count ' ' := by
    intro count
    induction count with
    | zero => rfl
    | succ count ih =>
      rw [List.replicate_succ, byteChars_cons, byteChars_ascii (by decide), ih]
      rfl
  rw [Glyph.masked, if_pos hidden, spaces]
  rfl

/-- A character that is not hidden keeps its bytes. -/
theorem byteChars_visible {glyph : Glyph} (visible : glyph.hidden = false) :
    byteChars glyph.masked = byteChars [glyph.char] := by
  simp [Glyph.masked, visible]

/-- Code has as many bytes with its literals hidden as without. -/
theorem length_maskedBytes (code : List Glyph) : (maskedBytes code).length = width code := by
  induction code with
  | nil => rfl
  | cons glyph code ih =>
    rw [maskedBytes_cons, List.length_append, ih, width_cons]
    congr 1
    -- A hidden character leaves as many spaces as it has bytes, and a visible one its bytes.
    cases hidden : glyph.hidden with
    | true => simp [byteChars_hidden hidden]
    | false => simp [byteChars_visible hidden, length_byteChars, Sized.size]

/-- A character that no search looks for: a space, or one outside of ASCII. -/
def IsFiller (c : Char) : Prop :=
  c = ' ' ∨ 0x80 ≤ c.toNat

/-- A test of single bytes, which takes all those outside of ASCII for the same. -/
def IsByteTest (test : Char → Bool) : Prop :=
  ∃ answer, ∀ c : Char, 0x80 ≤ c.toNat → test c = answer

/-- What only characters in ASCII pass is a test of single bytes. -/
theorem isByteTest_of_ascii {test : Char → Bool} (ascii : ∀ c, test c = true → c.toNat < 0x80) :
    IsByteTest test :=
  -- A byte outside of ASCII never passes, and in ASCII bytes are characters.
  ⟨false, fun c wide => Bool.eq_false_iff.mpr fun passes => absurd (ascii c passes) (Nat.not_lt.mpr wide)⟩

/-- What the bytes of a character of code are to a search. -/
inductive ByteForm (glyph : Glyph) : List Char → Prop
  /-- The character is its only byte. -/
  | single (one : Sized.size glyph = 1) : ByteForm glyph [glyph.shown]
  /-- All bytes are to any test what the character is, and nothing that a search looks for. -/
  | filler {bytes : List Char} (fills : IsFiller glyph.shown) (all : ∀ byte ∈ bytes, IsFiller byte)
      (same : ∀ test, IsByteTest test → ∀ byte ∈ bytes, test byte = test glyph.shown) :
      ByteForm glyph bytes

/-- The bytes of any character of code are of one of the two forms. -/
theorem Glyph.byteForm (glyph : Glyph) : ByteForm glyph (byteChars glyph.masked) := by
  cases hidden : glyph.hidden with
  | true =>
    have shown : glyph.shown = ' ' := if_pos hidden
    have spaces : ∀ byte ∈ byteChars glyph.masked, byte = ' ' := by
      rw [byteChars_hidden hidden]
      exact fun byte listed => List.eq_of_mem_replicate listed
    exact .filler (.inl shown) (fun byte listed => .inl (spaces byte listed))
      fun test _ byte listed => by rw [spaces byte listed, shown]
  | false =>
    have shown : glyph.shown = glyph.char := by simp [Glyph.shown, hidden]
    rw [byteChars_visible hidden]
    -- A visible character of ASCII is its own byte; the bytes of others are never looked for.
    by_cases ascii : glyph.char.toNat < 0x80
    · rw [byteChars_ascii ascii, ← shown]
      exact .single (utf8Size_ascii ascii)
    · have wide : 0x80 ≤ glyph.char.toNat := Nat.not_lt.mp ascii
      refine .filler (.inr (shown ▸ wide)) (fun byte listed => .inr (toNat_byteChars wide byte listed))
        fun test isTest byte listed => ?_
      obtain ⟨answer, constant⟩ := isTest
      rw [shown, constant _ wide, constant byte (toNat_byteChars wide byte listed)]

/-- The bytes of the first character of code stand in front of those of the others. -/
theorem exists_byteForm (glyph : Glyph) (code : List Glyph) :
    ∃ bytes, maskedBytes (glyph :: code) = bytes ++ maskedBytes code ∧
      bytes.length = Sized.size glyph ∧ ByteForm glyph bytes :=
  -- They are the bytes that the first character leaves, hidden or not.
  ⟨_, maskedBytes_cons glyph code, by simpa [maskedBytes] using length_maskedBytes [glyph],
    glyph.byteForm⟩

/-- A filler is no other character in ASCII. -/
theorem IsFiller.ne {c d : Char} (fills : IsFiller c) (ascii : d.toNat < 0x80) (noSpace : d ≠ ' ') :
    c ≠ d := by
  rintro rfl
  -- A filler is a space or begins no ASCII.
  rcases fills with space | wide
  · exact noSpace space
  · omega

/-- A character that a search sees as another one in ASCII is that one, in one byte. -/
theorem size_of_shown {c : Char} (ascii : c.toNat < 0x80) (noSpace : c ≠ ' ') {glyph : Glyph}
    (shown : glyph.shown = c) : Sized.size glyph = 1 := by
  -- A hidden character is seen as a space, so this one is visible, and is its only byte.
  cases hidden : glyph.hidden with
  | true => exact absurd (shown.symm.trans (if_pos hidden)) noSpace
  | false =>
    have char : glyph.char = c := by simpa [Glyph.shown, hidden] using shown
    change glyph.char.utf8Size = 1
    rw [char, utf8Size_ascii ascii]

/-- A run of one character in ASCII takes up as many bytes as it has characters. -/
theorem width_of_shown {c : Char} (ascii : c.toNat < 0x80) (noSpace : c ≠ ' ') {run : List Glyph}
    (shown : ∀ glyph ∈ run, glyph.shown = c) : width run = run.length := by
  induction run with
  | nil => rfl
  | cons glyph run ih =>
    obtain ⟨here, later⟩ := List.forall_mem_cons.mp shown
    -- Each character of the run takes up one byte.
    rw [width_cons, size_of_shown ascii noSpace here, ih later, List.length_cons, Nat.add_comm]

/-- Each byte of a character is there, and is what a search looks for if the character is. -/
theorem exists_byte (front rest : List Glyph) {glyph : Glyph} {place : Nat}
    (within : place < Sized.size glyph) :
    ∃ byte, (maskedBytes (front ++ glyph :: rest))[width front + place]? = some byte ∧
      ∀ c : Char, c.toNat < 0x80 → c ≠ ' ' → (byte = c ↔ glyph.shown = c) := by
  obtain ⟨bytes, whole, size, form⟩ := exists_byteForm glyph rest
  have inside : place < bytes.length := size ▸ within
  refine ⟨bytes[place], ?_, fun c ascii noSpace => ?_⟩
  · rw [maskedBytes_append, whole, List.getElem?_append_right (by simp [length_maskedBytes]),
      length_maskedBytes, Nat.add_sub_cancel_left, List.getElem?_append_left inside,
      List.getElem?_eq_getElem inside]
  -- A single byte is the character, and a filler is nothing that is looked for.
  · cases form with
    | single one =>
      have first : place = 0 := by omega
      subst first
      rfl
    | filler fills all _ =>
      exact iff_of_false ((all _ (List.getElem_mem inside)).ne ascii noSpace) (fills.ne ascii noSpace)

/-- The first byte of a character is what a search looks for if the character is. -/
theorem exists_firstByte (front : List Glyph) (glyph : Glyph) (rest : List Glyph) :
    ∃ byte, (maskedBytes (front ++ glyph :: rest))[width front]? = some byte ∧
      ∀ c : Char, c.toNat < 0x80 → c ≠ ' ' → (byte = c ↔ glyph.shown = c) :=
  -- A character takes up a byte at least, and this is the first of them.
  exists_byte front rest (Sized.positive glyph)

/-- Bytes at the end of code. -/
theorem drop_maskedBytes (front rest : List Glyph) :
    (maskedBytes (front ++ rest)).drop (width front) = maskedBytes rest := by
  rw [maskedBytes_append, ← length_maskedBytes, List.drop_left]

/-- The byte at the start of a stretch of code is what is looked for if its first character is. -/
theorem getElem?_width {c : Char} (ascii : c.toNat < 0x80) (noSpace : c ≠ ' ') (front rest : List Glyph) :
    (maskedBytes (front ++ rest))[width front]? = some c ↔ rest.head?.map (·.shown) = some c := by
  cases rest with
  | nil => simp [← length_maskedBytes]
  | cons glyph rest =>
    -- The byte at that place is the first one of the character there.
    obtain ⟨byte, found, same⟩ := exists_firstByte front glyph rest
    rw [found]
    simpa using same c ascii noSpace

/-- A loop that goes on by one at each place of a stretch goes on behind the stretch. -/
theorem loop_skip {α : Type} (loop : Nat → Nat → α) {start : Nat} (size fuel : Nat)
    (step : ∀ place < size, ∀ fuel, loop (fuel + 1) (start + place) = loop fuel (start + place + 1)) :
    loop (fuel + size) start = loop fuel (start + size) := by
  induction size generalizing fuel with
  | zero => rfl
  | succ size ih =>
    -- The last step of the stretch is made at the end.
    calc loop (fuel + (size + 1)) start
        = loop (fuel + 1 + size) start := by rw [Nat.add_comm size, Nat.add_assoc]
      _ = loop (fuel + 1) (start + size) :=
        ih (fuel + 1) fun place within => step place (Nat.lt_succ_of_lt within)
      _ = loop fuel (start + (size + 1)) := step size (Nat.lt_succ_self size) fuel

/-- A filler nests nothing. -/
theorem IsFiller.bracketOf_eq {c : Char} (fills : IsFiller c) : Glyph.bracketOf c = .level := by
  -- The brackets are in ASCII, and a filler is none of their bytes.
  have apart : ∀ d ∈ ['(', '[', '{', ')', ']', '}'], c ≠ d := by
    intro d listed
    have plain : ∀ d ∈ ['(', '[', '{', ')', ']', '}'], d.toNat < 0x80 ∧ d ≠ ' ' := by decide
    exact fills.ne (plain d listed).1 (plain d listed).2
  simp only [List.forall_mem_cons] at apart
  simp [Glyph.bracketOf, apart]

/-- As many bytes pass a test as the characters in front of the first that does not. -/
theorem length_takeWhile_bytes {test : Char → Bool} (isTest : IsByteTest test) (code : List Glyph) :
    ((maskedBytes code).takeWhile test).length =
      width (code.takeWhile fun glyph => test glyph.shown) := by
  induction code with
  | nil => rfl
  | cons glyph code ih =>
    obtain ⟨bytes, front, size, form⟩ := exists_byteForm glyph code
    -- All bytes of a glyph pass the test, or none does.
    have same : ∀ byte ∈ bytes, test byte = test glyph.shown := by
      cases form with
      | single => simp
      | filler _ _ same => exact same test isTest
    rw [front, List.takeWhile_cons]
    cases passes : test glyph.shown with
    | true =>
      rw [List.takeWhile_append_of_pos fun byte listed => (same byte listed).trans passes,
        List.length_append, size, ih]
      rfl
    | false =>
      have filled : bytes ≠ [] := by
        rw [← List.length_pos_iff, size]
        exact Sized.positive glyph
      obtain ⟨byte, more, rfl⟩ := List.exists_cons_of_ne_nil filled
      simp [same byte List.mem_cons_self, passes]

/-- No bracket is closed by elements that nest nothing. -/
theorem Nest.closeIndex_level {α : Type} {nest : α → Nest} {front : List α}
    (level : ∀ x ∈ front, nest x = .level) (depth : Nat) (back : List α) :
    closeIndex nest depth (front ++ back) =
      (closeIndex nest depth back).map (· + front.length) := by
  induction front with
  | nil => simp
  | cons x front ih =>
    obtain ⟨here, later⟩ := List.forall_mem_cons.mp level
    -- The depth stays, so the bracket is found as many elements further on.
    simp [closeIndex, here, ih later, Function.comp_def, Nat.add_assoc]

/-- The bracket that closes the first one is found at the offset at which its character begins. -/
theorem closeIndex_bytes (depth : Nat) (code : List Glyph) :
    Nest.closeIndex Glyph.bracketOf depth (maskedBytes code) =
      (Nest.closeIndex (fun glyph => Glyph.bracketOf glyph.shown) depth code).map fun index =>
        width (code.take index) := by
  induction code generalizing depth with
  | nil => rfl
  | cons glyph code ih =>
    obtain ⟨bytes, front, size, form⟩ := exists_byteForm glyph code
    rw [front]
    -- A bracket is a single byte, and fillers leave the depth as it is.
    cases form with
    | single one =>
      rw [List.singleton_append, Nest.closeIndex.eq_def, Nest.closeIndex.eq_def]
      cases bracket : Glyph.bracketOf glyph.shown with
      | opens => simp [bracket, ih, one, Function.comp_def, Nat.add_comm]
      | level => simp [bracket, ih, one, Function.comp_def, Nat.add_comm]
      | closes =>
        match depth with
        | 0 => simp [bracket]
        | 1 => simp [bracket]
        | depth + 2 => simp [bracket, ih, one, Function.comp_def, Nat.add_comm]
    | filler fills all _ =>
      rw [Nest.closeIndex_level fun byte listed => (all byte listed).bracketOf_eq, ih, size]
      simp [Nest.closeIndex, fills.bracketOf_eq, Function.comp_def, Nat.add_comm]

/-- A bracket closes at an element that closes one. -/
theorem Nest.closes_of_closeIndex {α : Type} {nest : α → Nest} {depth index : Nat} {list : List α}
    (found : closeIndex nest depth list = some index) :
    ∃ front x back, list = front ++ x :: back ∧ front.length = index ∧ nest x = .closes := by
  induction list generalizing depth index with
  | nil => cases found
  | cons x rest ih =>
    -- What is found further on is found with this element in front of it.
    have later : ∀ {deeper}, (closeIndex nest deeper rest).map (· + 1) = some index →
        ∃ front y back, x :: rest = front ++ y :: back ∧ front.length = index ∧ nest y = .closes := by
      intro deeper found
      obtain ⟨less, inside, rfl⟩ := Option.map_eq_some_iff.mp found
      obtain ⟨front, y, back, rfl, length, closes⟩ := ih inside
      exact ⟨x :: front, y, back, rfl, by simp [length], closes⟩
    cases bracket : nest x with
    | opens => exact later (by simpa [closeIndex, bracket] using found)
    | level => exact later (by simpa [closeIndex, bracket] using found)
    | closes =>
      match depth with
      | 0 => simp [closeIndex, bracket] at found
      | 1 =>
        obtain rfl : 0 = index := by simpa [closeIndex, bracket] using found
        exact ⟨[], x, rest, rfl, rfl, bracket⟩
      | depth + 2 => exact later (by simpa [closeIndex, bracket] using found)

/-- A closing bracket takes up one byte. -/
theorem size_of_closes {glyph : Glyph} (closes : Glyph.bracketOf glyph.shown = .closes) :
    Sized.size glyph = 1 := by
  simp only [Glyph.bracketOf] at closes
  split at closes
  case isTrue => cases closes
  case isFalse =>
    split at closes
    case isTrue bracket =>
      -- A hidden character shows a space, so what shows a bracket is one.
      rcases bracket with shown | shown | shown <;>
        exact size_of_shown (by decide) (by decide) shown
    case isFalse => cases closes

/-- What stands between a bracket and the one that closes it, and what follows. -/
structure Encloses (glyph : Glyph) (rest inside : List Glyph) (closing : Glyph) (after : List Glyph) :
    Prop where
  code : rest = inside ++ closing :: after
  index : Glyph.closeIndex (glyph :: rest) = some (inside.length + 1)
  offset : Nest.closeIndex Glyph.bracketOf 0 (maskedBytes (glyph :: rest)) = some (width inside + 1)
  size : Sized.size closing = 1

/-- An opening bracket is closed at an offset behind it, or nowhere. -/
theorem closeIndex_cases {glyph : Glyph} (opens : Glyph.bracketOf glyph.shown = .opens)
    (one : Sized.size glyph = 1) (rest : List Glyph) :
    (Glyph.closeIndex (glyph :: rest) = none ∧
        Nest.closeIndex Glyph.bracketOf 0 (maskedBytes (glyph :: rest)) = none) ∨
      ∃ inside closing after, Encloses glyph rest inside closing after := by
  have bytes := closeIndex_bytes 0 (glyph :: rest)
  cases found : Glyph.closeIndex (glyph :: rest) with
  | none => exact .inl ⟨rfl, bytes.trans (congrArg (Option.map _) found)⟩
  | some index =>
    right
    -- The first bracket opens one, so the rest is searched one level deeper.
    have behind : (Nest.closeIndex (fun glyph => Glyph.bracketOf glyph.shown) 1 rest).map (· + 1) =
        some index := by
      rw [← found, Glyph.closeIndex, Nest.closeIndex]
      simp only [opens]
    obtain ⟨less, inner, rfl⟩ := Option.map_eq_some_iff.mp behind
    obtain ⟨inside, closing, after, rfl, rfl, closes⟩ := Nest.closes_of_closeIndex inner
    refine ⟨inside, closing, after, rfl, found, ?_, size_of_closes closes⟩
    rw [bytes, show Nest.closeIndex _ 0 (glyph :: (inside ++ closing :: after)) = _ from found]
    simp [one, Nat.add_comm]

end IndexAudit
