import IndexAudit.Proofs.Offset.Byte

/-!
Code divided at separators, with the offsets of its parts.

The separators are looked for byte by byte, and the parts are what the code itself is divided into.
-/

namespace IndexAudit

/-- The offsets of parts of given widths with one byte between every two of them. -/
def spansFrom (start : Nat) : List Nat → List (Nat × Nat)
  | [] => []
  | size :: sizes => (start, start + size) :: spansFrom (start + size + 1) sizes

/-- The part that a byte plays when code is divided at a separator. -/
def byteCut (separator : Char) (angled : Bool) (previous : Option Char) (byte : Char) : Cut :=
  Glyph.cutAt separator angled (previous.map Glyph.plain) (Glyph.plain byte)

/--
The offsets of the parts of masked bytes between two offsets.

It fails if the second offset lies in front of the first one or behind the end.
-/
def spans? (separator : Char) (angled : Bool) (start stop : Nat) (bytes : List Char) :
    Option (List (Nat × Nat)) :=
  if start ≤ stop ∧ stop ≤ bytes.length then
    let inside := (bytes.drop start).take (stop - start)
    let parts := Cut.split (byteCut separator angled) 0 0 (bytes.take start).getLast? inside
    some (spansFrom start (parts.map List.length))
  else none

/-- Parts of code at their offsets. -/
def located? (code : List Glyph) (spans : List (Nat × Nat)) :
    Option (List ((Nat × Nat) × List Glyph)) :=
  spans.mapM fun span => (slice? span.1 span.2 code).map (span, ·)

/-- The parts of code between two offsets, each at its own offsets. -/
def parts? (separator : Char) (angled : Bool) (start stop : Nat) (code : List Glyph) :
    Option (List ((Nat × Nat) × List Glyph)) :=
  (spans? separator angled start stop (maskedBytes code)).bind (located? code)

/-- A part of code stands at its offsets, and behind it the code ends or a character stops the part. -/
def IsLocated (stops : Glyph → Prop) (code : List Glyph) (entry : (Nat × Nat) × List Glyph) : Prop :=
  ∃ front back, code = front ++ entry.2 ++ back ∧
    entry.1 = (width front, width front + width entry.2) ∧ ∀ glyph ∈ back.head?, stops glyph

/-- Widths of parts of which the first one is wider. -/
def widenFirst (more : Nat) : List Nat → List Nat
  | [] => [more]
  | size :: sizes => (more + size) :: sizes

namespace Cut

variable {α : Type}

/-- The first of several parts is wider by an element in front of it. -/
theorem map_extendFirst {measure : List α → Nat} (size : α → Nat) (empty : measure [] = 0)
    (step : ∀ x part, measure (x :: part) = size x + measure part) (x : α) (parts : List (List α)) :
    (extendFirst x parts).map measure = widenFirst (size x) (parts.map measure) := by
  -- Only the first part gets the element.
  cases parts <;> simp [extendFirst, widenFirst, step, empty]

/-- Parts of a list with a separator between every two of them. -/
inductive IsDivided (separates : α → Prop) : List (List α) → List α → Prop
  | last {part : List α} : IsDivided separates [part] part
  | next {part rest : List α} {parts : List (List α)} {x : α} (between : separates x)
      (later : IsDivided separates parts rest) :
      IsDivided separates (part :: parts) (part ++ x :: rest)

/-- An element in front of a divided list belongs to the first part. -/
theorem IsDivided.extendFirst {separates : α → Prop} {parts : List (List α)} {list : List α}
    (divided : IsDivided separates parts list) (x : α) :
    IsDivided separates (Cut.extendFirst x parts) (x :: list) := by
  -- Whether the first part is the last one or not, it takes the element to its front.
  cases divided with
  | last => exact .last
  | next between later => exact .next between later

/-- A list is divided at its separators, whatever is open around it. -/
theorem isDivided_split {cut : Option α → α → Cut} {separates : α → Prop}
    (cuts : ∀ previous x, cut previous x = .separator → separates x) (depth angles : Nat)
    (previous : Option α) (list : List α) :
    IsDivided separates (split cut depth angles previous list) list := by
  induction list generalizing depth angles previous with
  | nil => exact .last
  | cons x rest ih =>
    rw [split]
    cases part : cut previous x with
    | bracket nest => exact (ih _ _ _).extendFirst x
    | angle nest => exact (ih _ _ _).extendFirst x
    | separator =>
      -- A separator in brackets or angles is one more item of the part.
      by_cases outside : depth = 0 ∧ angles = 0
      · simp only [if_pos outside]
        exact .next (cuts _ _ part) (ih _ _ _)
      · simp only [if_neg outside]
        exact (ih _ _ _).extendFirst x

end Cut

/-- Widths of parts are wider by two stretches as by both together. -/
theorem widenFirst_add (more less : Nat) (sizes : List Nat) :
    widenFirst more (widenFirst less sizes) = widenFirst (more + less) sizes := by
  cases sizes <;> simp [widenFirst, Nat.add_assoc]

section Split

variable {separator : Char} {angled : Bool}

/-- What a character separates is told by what is seen of it and of the one in front of it. -/
theorem cutAt_congr {previous other : Option Glyph} {glyph same : Glyph}
    (alike : previous.any (·.shown != '-') = other.any (·.shown != '-'))
    (shown : glyph.shown = same.shown) :
    Glyph.cutAt separator angled previous glyph = Glyph.cutAt separator angled other same := by
  -- The cut looks at these two facts alone.
  simp only [Glyph.cutAt, alike, shown]

/-- A filler is no separator and no bracket, whatever stands in front of it. -/
theorem IsFiller.cutAt_eq (ascii : separator.toNat < 0x80) (noSpace : separator ≠ ' ')
    (glyph : Glyph) (fills : IsFiller glyph.shown) (previous : Option Glyph) :
    Glyph.cutAt separator angled previous glyph = .bracket .level := by
  -- A filler is no angle and not the separator, and no bracket either.
  have apart : glyph.shown ≠ '<' ∧ glyph.shown ≠ '>' ∧ glyph.shown ≠ separator :=
    ⟨fills.ne (by decide) (by decide), fills.ne (by decide) (by decide), fills.ne ascii noSpace⟩
  simp [Glyph.cutAt, fills.bracketOf_eq, apart]

/-- Bytes that fill belong to the first part. -/
theorem split_fillers (ascii : separator.toNat < 0x80) (noSpace : separator ≠ ' ') {fillers : List Char}
    (fills : ∀ byte ∈ fillers, IsFiller byte) (depth angles : Nat) (previous : Option Char)
    (rest : List Char) :
    (Cut.split (byteCut separator angled) depth angles previous (fillers ++ rest)).map List.length =
      widenFirst fillers.length
        ((Cut.split (byteCut separator angled) depth angles (fillers.getLast?.or previous) rest).map
          List.length) := by
  induction fillers generalizing previous with
  | nil =>
    obtain ⟨part, parts, form⟩ := List.exists_cons_of_ne_nil
      (Cut.split_ne_nil (byteCut separator angled) depth angles previous rest)
    simp [form, widenFirst]
  | cons byte fillers ih =>
    obtain ⟨here, later⟩ := List.forall_mem_cons.mp fills
    have level : byteCut separator angled previous byte = .bracket .level :=
      IsFiller.cutAt_eq ascii noSpace (Glyph.plain byte) here _
    -- The last filler is what the rest sees in front of it.
    have last : (byte :: fillers).getLast?.or previous = fillers.getLast?.or (some byte) := by
      rw [List.getLast?_cons]
      cases fillers.getLast? <;> rfl
    rw [last, List.cons_append, Cut.split, level]
    simp only [Nest.after]
    rw [Cut.map_extendFirst (fun _ => 1) rfl (fun _ part => by simp [Nat.add_comm]), ih later,
      widenFirst_add, List.length_cons, Nat.add_comm]

/-- The parts of code have as many bytes as the parts of its bytes. -/
theorem length_split_bytes (ascii : separator.toNat < 0x80) (noSpace : separator ≠ ' ')
    {previousByte : Option Char} {previous : Option Glyph}
    (alike : previousByte.any (· != '-') = previous.any (·.shown != '-')) (depth angles : Nat)
    (code : List Glyph) :
    (Cut.split (byteCut separator angled) depth angles previousByte (maskedBytes code)).map List.length =
      (Cut.split (Glyph.cutAt separator angled) depth angles previous code).map width := by
  induction code generalizing depth angles previousByte previous with
  | nil => rfl
  | cons glyph code ih =>
    obtain ⟨bytes, front, size, form⟩ := exists_byteForm glyph code
    rw [front]
    cases form with
    | single one =>
      have same : byteCut separator angled previousByte glyph.shown =
          Glyph.cutAt separator angled previous glyph := by
        refine cutAt_congr ?_ rfl
        rw [← alike]
        cases previousByte <;> rfl
      have later := @ih (some glyph.shown) (some glyph) rfl
      have wider : ∀ parts : List (List Glyph), (Cut.extendFirst glyph parts).map width =
          widenFirst 1 (parts.map width) := by
        intro parts
        rw [Cut.map_extendFirst Sized.size width_nil width_cons, one]
      have longer : ∀ parts : List (List Char), (Cut.extendFirst glyph.shown parts).map List.length =
          widenFirst 1 (parts.map List.length) := fun parts =>
        Cut.map_extendFirst (fun _ => 1) rfl (fun _ part => by simp [Nat.add_comm]) _ parts
      rw [List.singleton_append, Cut.split, Cut.split, same]
      cases Glyph.cutAt separator angled previous glyph with
      | bracket nest => simp only [wider, longer, later]
      | angle nest => simp only [wider, longer, later]
      | separator =>
        simp only
        split
        · simp [later]
        · simp only [wider, longer, later]
    | filler fills all _ =>
      -- Neither the last of the bytes nor the character is the dash of an arrow.
      have noDash : ∀ byte, IsFiller byte → (byte != '-') = true := fun byte fills =>
        bne_iff_ne.mpr (fills.ne (by decide) (by decide))
      have filled : bytes ≠ [] := by
        rw [← List.length_pos_iff, size]
        exact Sized.positive glyph
      have lastByte : (bytes.getLast?.or previousByte).any (· != '-') =
          (some glyph).any (·.shown != '-') := by
        rw [List.getLast?_eq_some_getLast filled]
        simp [noDash _ (all _ (List.getLast_mem filled)), noDash _ fills]
      rw [split_fillers ascii noSpace all, ih lastByte, Cut.split,
        IsFiller.cutAt_eq ascii noSpace glyph fills]
      simp only [Nest.after]
      rw [Cut.map_extendFirst Sized.size width_nil width_cons, size]

/-- With no angle open, it does not matter what stands in front of the code that is divided. -/
theorem split_previous (noAngle : separator ≠ '>') (depth : Nat) (previous other : Option Glyph)
    (code : List Glyph) :
    Cut.split (Glyph.cutAt separator angled) depth 0 previous code =
      Cut.split (Glyph.cutAt separator angled) depth 0 other code := by
  cases code with
  | nil => rfl
  | cons glyph code =>
    -- Only a closing angle depends on it, and that closes nothing.
    have cases : ∀ previous, Glyph.cutAt separator angled previous glyph =
        Glyph.cutAt separator angled none glyph ∨
        (Glyph.cutAt separator angled previous glyph = .angle .closes ∧
          Glyph.cutAt separator angled none glyph = .bracket .level) := by
      intro previous
      by_cases angle : angled = true ∧ glyph.shown = '>' ∧ previous.any (·.shown != '-') = true
      · obtain ⟨rfl, closing, arrow⟩ := angle
        right
        simp [Glyph.cutAt, Glyph.bracketOf, closing, arrow, Ne.symm noAngle]
      · left
        simp [Glyph.cutAt, angle]
    have neutral : ∀ previous, Cut.split (Glyph.cutAt separator angled) depth 0 previous (glyph :: code) =
        Cut.split (Glyph.cutAt separator angled) depth 0 none (glyph :: code) := by
      intro previous
      rw [Cut.split, Cut.split]
      rcases cases previous with same | ⟨closes, level⟩
      · rw [same]
      · rw [closes, level]
        rfl
    rw [neutral previous, neutral other]

/-- The parts of code begin and end where its bytes are divided. -/
theorem spans?_width (ascii : separator.toNat < 0x80) (noSpace : separator ≠ ' ')
    (noAngle : separator ≠ '>') (front part back : List Glyph) :
    spans? separator angled (width front) (width front + width part)
        (maskedBytes (front ++ part ++ back)) =
      some (spansFrom (width front) ((Glyph.splitTop separator angled part).map width)) := by
  have within : width front ≤ width front + width part ∧
      width front + width part ≤ (maskedBytes (front ++ part ++ back)).length := by
    rw [length_maskedBytes, width_append, width_append]
    omega
  have inside : ((maskedBytes (front ++ part ++ back)).drop (width front)).take
      (width front + width part - width front) = maskedBytes part := by
    rw [maskedBytes_append, maskedBytes_append, ← length_maskedBytes, List.append_assoc,
      List.drop_left, Nat.add_sub_cancel_left, ← length_maskedBytes, List.take_left]
  rw [spans?, if_pos within]
  simp only [inside]
  -- Only an arrow is looked back for, and a dash is one byte.
  have same : ∀ byte : Option Char, byte.any (· != '-') = (byte.map Glyph.plain).any (·.shown != '-') := by
    intro byte
    cases byte <;> rfl
  rw [length_split_bytes ascii noSpace (same _), split_previous noAngle 0 _ none]
  rfl

/-- A character separates only if it is the separator. -/
theorem shown_of_cutAt {previous : Option Glyph} {glyph : Glyph}
    (cuts : Glyph.cutAt separator angled previous glyph = .separator) : glyph.shown = separator := by
  -- Of the branches of the cut, one alone separates, and it asks for the separator.
  simp only [Glyph.cutAt] at cuts
  split at cuts
  · cases cuts
  · cases cuts
  · split at cuts
    · cases cuts
    · split at cuts
      · cases cuts
      · split at cuts
        · assumption
        · cases cuts

/-- Code is divided at characters that are seen as the separator. -/
theorem isDivided_code (depth angles : Nat) (previous : Option Glyph) (code : List Glyph) :
    Cut.IsDivided (fun glyph : Glyph => glyph.shown = separator)
      (Cut.split (Glyph.cutAt separator angled) depth angles previous code) code := by
  -- The division holds of any cut whose separators are known.
  refine Cut.isDivided_split ?_ depth angles previous code
  exact fun _ _ => shown_of_cutAt

/-- The parts of divided code are found at their offsets. -/
theorem located?_of_isDivided (ascii : separator.toNat < 0x80) (noSpace : separator ≠ ' ')
    {stops : Glyph → Prop} (separatorStops : ∀ glyph, glyph.shown = separator → stops glyph)
    {parts : List (List Glyph)} {part : List Glyph}
    (divided : Cut.IsDivided (fun glyph : Glyph => glyph.shown = separator) parts part)
    (front back : List Glyph) (ends : ∀ glyph ∈ back.head?, stops glyph) :
    ∃ entries, located? (front ++ part ++ back) (spansFrom (width front) (parts.map width)) =
        some entries ∧ entries.map (·.2) = parts ∧
      ∀ entry ∈ entries, IsLocated stops (front ++ part ++ back) entry := by
  induction divided generalizing front with
  | @last part =>
    refine ⟨[((width front, width front + width part), part)], ?_, rfl, ?_⟩
    · simp only [located?, List.map_cons, List.map_nil, spansFrom, List.mapM_cons,
        List.mapM_nil, slice?_width]
      rfl
    · intro entry listed
      rw [List.mem_singleton.mp listed]
      exact ⟨front, back, rfl, rfl, ends⟩
  | @next part rest parts glyph separates later ih =>
    have place : front ++ (part ++ glyph :: rest) ++ back =
        front ++ part ++ [glyph] ++ rest ++ back := by simp
    have first : front ++ (part ++ glyph :: rest) ++ back =
        front ++ part ++ (glyph :: (rest ++ back)) := by simp
    obtain ⟨entries, found, same, located⟩ := ih (front ++ part ++ [glyph])
    -- The separator is a character of ASCII, so one byte wide.
    have offset : width (front ++ part ++ [glyph]) = width front + width part + 1 := by
      simp [size_of_shown ascii noSpace separates, Nat.add_assoc]
    rw [offset, ← place] at found
    rw [← place] at located
    refine ⟨((width front, width front + width part), part) :: entries, ?_, by simp [same], ?_⟩
    · rw [located?] at found ⊢
      rw [List.map_cons, spansFrom, List.mapM_cons, found, first, slice?_width]
      rfl
    · refine List.forall_mem_cons.mpr ⟨⟨front, glyph :: (rest ++ back), first, rfl, ?_⟩, located⟩
      simpa using separatorStops glyph separates

/-- Code is divided between two offsets into the parts of the code that stands there. -/
theorem exists_parts (separator : Char) (angled : Bool) (stops : Glyph → Prop)
    (ascii : separator.toNat < 0x80) (noSpace : separator ≠ ' ') (noAngle : separator ≠ '>')
    (separatorStops : ∀ glyph, glyph.shown = separator → stops glyph) (front part back : List Glyph)
    (ends : ∀ glyph ∈ back.head?, stops glyph) :
    ∃ entries, parts? separator angled (width front) (width front + width part)
        (front ++ part ++ back) = some entries ∧
      entries.map (·.2) = Glyph.splitTop separator angled part ∧
      ∀ entry ∈ entries, IsLocated stops (front ++ part ++ back) entry := by
  -- The spans are found at the widths, and each of the parts is located by its span.
  rw [parts?, spans?_width ascii noSpace noAngle, Option.bind_some]
  exact located?_of_isDivided ascii noSpace separatorStops (isDivided_code 0 0 none part) front back
    ends

end Split

end IndexAudit
