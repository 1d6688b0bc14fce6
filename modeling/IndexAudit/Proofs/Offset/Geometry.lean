import IndexAudit.Proofs.Code.Closed
import IndexAudit.Proofs.Code.Lockstep
import IndexAudit.Proofs.Code.Stretch
import IndexAudit.Proofs.Offset.Annotation
import IndexAudit.Proofs.Offset.Entity
import IndexAudit.Proofs.Offset.Mask
import IndexAudit.Proofs.Offset.Repository

/-!
Source texts are scanned without fail, and hiding literals leaves each byte of code where it is.

Whatever a text holds, no scan of it runs on forever, reads an index that is out of range, or cuts a
text inside a character. What hiding literals makes of code is a text again, in which only their
contents have become spaces, so offsets found there are those of the code itself. The arguments of
an annotation have the same literals hidden whether they are looked at by themselves or in the code
around them.
-/

namespace IndexAudit

/-! Scans of source texts. -/

section Cut

variable {α : Type} [Sized α]

/-- An offset at which a text is cut is that behind the part in front of it. -/
theorem eq_of_cut? {offset : Nat} {text front back : List α}
    (found : cut? offset text = some (front, back)) : text = front ++ back ∧ offset = width front := by
  -- Each character that still fits takes its own size off the offset.
  induction text generalizing offset front with
  | nil =>
    simp only [cut?] at found
    split at found
    case isTrue zero =>
      cases found
      exact ⟨rfl, zero⟩
    case isFalse => cases found
  | cons x rest ih =>
    simp only [cut?] at found
    split at found
    case isTrue zero =>
      cases found
      exact ⟨rfl, zero⟩
    case isFalse =>
      split at found
      case isTrue within =>
        obtain ⟨⟨later, after⟩, inside, same⟩ := Option.map_eq_some_iff.mp found
        cases same
        obtain ⟨rfl, less⟩ := ih inside
        exact ⟨rfl, by rw [width_cons, ← less]; omega⟩
      case isFalse => cases found

/-- A slice of a text is what stands between its offsets. -/
theorem exists_of_slice? {start stop : Nat} {text part : List α} (found : slice? start stop text = some part) :
    ∃ front back, text = front ++ part ++ back ∧ start = width front ∧ stop = width front + width part := by
  -- The text is cut at the stop, and what is in front of it at the start.
  obtain ⟨before, first, second⟩ := Option.bind_eq_some_iff.mp found
  obtain ⟨⟨_, back⟩, cutStop, rfl⟩ := Option.map_eq_some_iff.mp first
  obtain ⟨⟨front, _⟩, cutStart, rfl⟩ := Option.map_eq_some_iff.mp second
  obtain ⟨rfl, stop⟩ := eq_of_cut? cutStop
  obtain ⟨whole, start⟩ := eq_of_cut? cutStart
  dsimp only at whole stop
  exact ⟨front, back, by rw [whole], start, by rw [stop, whole, width_append]⟩

end Cut

/-- Writing each character of code in as many bytes keeps the width of the code. -/
theorem width_flatMap {write : Glyph → List Char} (same : ∀ glyph, width (write glyph) = Sized.size glyph)
    (code : List Glyph) : width (code.flatMap write) = width code := by
  -- Each character adds its own bytes, so by induction the sums agree.
  induction code with
  | nil => rfl
  | cons glyph code ih => rw [List.flatMap_cons, width_append, width_cons, same, ih]

/-- Where code is cut, a text with each of its characters in as many bytes is cut too. -/
theorem slice?_flatMap (write : Glyph → List Char)
    (same : ∀ glyph, width (write glyph) = Sized.size glyph) {start stop : Nat} {code part : List Glyph} (found : slice? start stop code = some part) :
    slice? start stop (code.flatMap write) = some (part.flatMap write) := by
  obtain ⟨front, back, rfl, rfl, rfl⟩ := exists_of_slice? found
  -- The pieces keep their widths, so the same offsets cut between them.
  rw [← width_flatMap same front, ← width_flatMap same part, List.flatMap_append, List.flatMap_append]
  exact slice?_width _ _ _

/-- A hidden character leaves as many spaces as it has bytes. -/
theorem width_masked (glyph : Glyph) : width glyph.masked = Sized.size glyph := by
  rw [Glyph.masked]
  split
  -- A hidden character leaves as many spaces as it has bytes, each of one byte.
  · have ascii : IsAscii (List.replicate glyph.char.utf8Size ' ') := by
      intro c listed
      rw [List.eq_of_mem_replicate listed]
      decide
    rw [ascii.width, List.length_replicate]
    rfl
  · rfl

/--
Every source text is scanned to the end, with each cut at a character boundary and each index in range.

Literals are hidden byte by byte without breaking a character, and code is cut at the same offsets as its
hidden and its plain text. Predicates, which can be taken apart only in ASCII, come from names in ASCII.
-/
theorem scans_without_fail (file : String) (mappings : Mappings) (text : List Char) :
    let codeText := SourceLine.codeText (SourceLine.ofText text)
    let code := Glyph.ofCode codeText
    MaskState.code.mask (byteChars codeText) = byteChars (Glyph.mask codeText) ∧
    (∀ start stop part, slice? start stop code = some part →
      slice? start stop codeText = some (Glyph.text part) ∧
      slice? start stop (Glyph.mask codeText) = some (part.flatMap Glyph.masked)) ∧
    Repository.columnsFrom? file mappings text = some (Repository.columns file mappings text) ∧
    Entity.mappingFrom? text = some (Entity.mappingOfText? text) ∧
    (∀ line body, ∀ member ∈ Repository.members line body, ∀ name ∈ member.name, IsAscii name ∧
      ∀ isProperty, ∃ query, DerivedQuery.ofMethodName isProperty name = .ok query) ∧
    ∀ predicate, DerivedQuery.splitPredicateFrom? predicate = none ↔ ¬ IsAscii predicate := by
  intro codeText code
  -- Each part is settled where its scan is modelled; they meet here on the same code.
  refine ⟨MaskState.mask_ofCode codeText, fun start stop part found => ⟨?_, ?_⟩,
    Repository.columnsFrom?_eq file mappings text, Entity.mappingFrom?_eq text,
    fun line body member listed name named => ?_, fun _ => DerivedQuery.splitPredicateFrom?_eq_none_iff⟩
  · have cut := slice?_flatMap (fun glyph => [glyph.char]) (fun _ => Nat.add_zero _) found
    rwa [← List.map_eq_flatMap, ← List.map_eq_flatMap,
      show code.map (·.char) = codeText from LiteralState.text_glyphs _ _] at cut
  · exact slice?_flatMap _ width_masked found
  · have ascii := Repository.isAscii_members line body member listed name named
    refine ⟨ascii, fun isProperty => ?_⟩
    obtain ⟨query, read, -⟩ := DerivedQuery.ofMethodNameFrom?_eq isProperty ascii
    exact ⟨query, read⟩

/-! Code with its literals hidden. -/

namespace Glyph

/-- A byte and what is left of it: itself or a space, and a line break if and only if it is one. -/
def IsLeft (byte left : Char) : Prop :=
  (left = byte ∨ left = ' ') ∧ (left = '\n' ↔ byte = '\n')

/-- Bytes are left as they are where nothing is hidden. -/
theorem isLeft_self (bytes : List Char) : List.Forall₂ IsLeft bytes bytes :=
  List.forall₂_same.mpr fun _ _ => ⟨.inl rfl, Iff.rfl⟩

/-- The bytes of a hidden character become spaces. -/
theorem isLeft_hidden {c : Char} (inLine : c ≠ '\n') :
    List.Forall₂ IsLeft (byteChars [c]) (List.replicate c.utf8Size ' ') := by
  have size : (byteChars [c]).length = c.utf8Size :=
    (length_byteChars [c]).trans (by simp [Sized.size])
  -- A line break is a byte of its own, so no byte of another character is one.
  have apart : ∀ byte ∈ byteChars [c], byte ≠ '\n' := by
    by_cases ascii : c.toNat < 0x80
    · simpa [byteChars_ascii ascii] using inLine
    · intro byte member same
      have wide := toNat_byteChars (Nat.not_lt.mp ascii) byte member
      rw [same] at wide
      exact absurd wide (by decide)
  rw [← size]
  generalize byteChars [c] = bytes at apart
  induction bytes with
  | nil => exact .nil
  | cons byte bytes ih =>
    obtain ⟨here, later⟩ := List.forall_mem_cons.mp apart
    exact .cons ⟨.inr rfl, by simp [here]⟩ (ih later)

/-- Each byte of code is left as it is or becomes a space, and no line break does. -/
theorem forall₂_isLeft {code : List Glyph} (keeps : KeepsLines code) :
    List.Forall₂ IsLeft (byteChars (text code)) (maskedBytes code) := by
  induction code with
  | nil => exact .nil
  | cons glyph code ih =>
    obtain ⟨here, later⟩ := List.forall_mem_cons.mp keeps
    rw [text, List.map_cons, byteChars_cons, maskedBytes_cons]
    refine List.rel_append ?_ (ih later)
    -- Byte by byte, for a glyph has the same number of them whether it is hidden or not.
    cases hidden : glyph.hidden with
    | true =>
      rw [byteChars_hidden hidden]
      exact isLeft_hidden (here hidden)
    | false =>
      rw [byteChars_visible hidden]
      exact isLeft_self _

end Glyph

/-! A part of code in brackets is read by itself as in the code around it. -/

namespace LiteralState

/-- Whether a character is hidden does not hang on what stands behind, unless that is a quote. -/
theorem step_cut (state : LiteralState) (c : Char) (front : List Char) {back : List Char}
    (noQuote : ∀ d ∈ back.head?, d ≠ '"') :
    (state.step c (front ++ back)).1 = (state.step c front).1 ∧
      (front ≠ [] → state.step c (front ++ back) = state.step c front) := by
  -- No more than three characters are looked at, and only quotes are looked for.
  cases back with
  | nil => simp
  | cons d back =>
    have apart : d ≠ '"' := noQuote d rfl
    match front with
    | [] =>
      refine ⟨?_, fun filled => absurd rfl filled⟩
      cases state <;> simp only [step] <;> split_ifs <;> simp_all
    | [first] => cases state <;> simp [step, apart]
    | [first, second] => cases state <;> simp [step, apart]
    | first :: second :: third :: rest => cases state <;> simp [step]

/-- Code up to a character that is no quote is read as if nothing stood behind it. -/
theorem glyphs_cut (state : LiteralState) {inside behind : List Glyph} {code : List Char}
    (read : state.glyphs code = inside ++ behind) (noQuote : ∀ glyph ∈ behind.head?, glyph.char ≠ '"') :
    state.glyphs (Glyph.text inside) = inside := by
  have split : Glyph.text inside ++ Glyph.text behind = code := by
    rw [← text_glyphs state code, read]
    simp [Glyph.text]
  have apart : ∀ d ∈ (Glyph.text behind).head?, d ≠ '"' := by
    cases behind with
    | nil => simp [Glyph.text]
    | cons glyph behind => simpa [Glyph.text] using noQuote glyph rfl
  subst split
  generalize Glyph.text behind = back at read apart
  -- By induction on the part, from any place in the scan.
  induction inside generalizing state with
  | nil => rfl
  | cons glyph inside ih =>
    have cut := step_cut state glyph.char (Glyph.text inside) apart
    simp only [Glyph.text, List.map_cons, List.cons_append, glyphs, List.cons.injEq] at read cut ⊢
    refine ⟨by rw [← cut.1]; exact read.1, ?_⟩
    cases inside with
    | nil => rfl
    | cons next inside =>
      rw [← cut.2 (by simp)]
      exact ih _ read.2

/-- Behind a round bracket that is seen, code is read from the start. -/
theorem glyphs_bracket {state : LiteralState} {code : List Char} (fits : state.Fits code)
    {front inside : List Glyph} {opening : Glyph} (shown : opening.shown = '(')
    (read : state.glyphs code = front ++ opening :: inside) :
    LiteralState.code.glyphs (Glyph.text inside) = inside := by
  induction front generalizing state code with
  | nil =>
    cases code with
    | nil => cases read
    | cons c rest =>
      simp only [List.nil_append, glyphs, List.cons.injEq] at read
      obtain ⟨rfl, rfl⟩ := read
      rw [text_glyphs]
      -- A bracket is seen nowhere but outside of literals, where none begins with it.
      have visible : (state.step c rest).1 = false ∧ c = '(' := by
        unfold Glyph.shown at shown
        split at shown
        · exact absurd shown (by decide)
        · rename_i visible
          exact ⟨by simpa using visible, shown⟩
      obtain ⟨visible, rfl⟩ := visible
      have outside : (state.step '(' rest).2 = .code := by
        cases state with
        | rawOpening left => exact absurd (quotes_cons fits.1 fits.2).1 (by decide)
        | rawClosing left => exact absurd (quotes_cons fits.1 fits.2).1 (by decide)
        | _ => simp_all [step]
      rw [outside]
  | cons glyph front ih =>
    cases code with
    | nil => cases read
    | cons c rest =>
      simp only [List.cons_append, glyphs, List.cons.injEq] at read
      exact ih (fits_step fits) read.2

end LiteralState

/-- The bracket that closes arguments is no quote. -/
theorem Encloses.char_ne {opening closing : Glyph} {rest inside after : List Glyph}
    (encloses : Encloses opening rest inside closing after) : closing.char ≠ '"' := by
  obtain ⟨front, last, back, split, size, closes⟩ := Nest.closes_of_closeIndex encloses.index
  obtain ⟨-, same⟩ : opening :: inside = front ∧ closing :: after = last :: back := by
    refine List.append_inj ?_ (by simp [size])
    rw [← split, encloses.code]
    rfl
  obtain rfl : closing = last := (List.cons.inj same).1
  rintro quote
  -- A quote is seen as itself or as a space.
  unfold Glyph.shown at closes
  split at closes
  · cases closes
  · rw [quote] at closes
    cases closes

namespace AnnotationUse

/-- The offsets of the round brackets around the arguments of an annotation in code. -/
structure Brackets (code : List Glyph) (inside : List Glyph) (start stop : Nat) : Prop where
  opened : (maskedBytes code)[start]? = some '('
  /-- The bracket is closed behind the arguments, or the code ends with them. -/
  closed : Nest.closeIndex Glyph.bracketOf 0 ((maskedBytes code).drop start) = some (stop - start) ∨
    Nest.closeIndex Glyph.bracketOf 0 ((maskedBytes code).drop start) = none ∧ stop = width code
  cut : slice? (start + 1) stop code = some inside

/-- An annotation without arguments stands in code, or one with its arguments between two offsets. -/
inductive StandsAt (code : List Glyph) (note : AnnotationUse) : Option (Nat × Nat) → Prop
  | plain (nothing : note.args = none) : StandsAt code note none
  | inBrackets {sign behind start stop : Nat} {name inside : List Glyph}
      (signed : (maskedBytes code)[sign]? = some '@')
      (named : slice? (sign + 1) behind code = some name)
      (simple : note.name = simpleName (Glyph.shownText name))
      (spaced : start = skipFrom (maskedBytes code) behind)
      (brackets : Brackets code inside start stop) (args : note.args = some (Glyph.text inside)) :
      StandsAt code note (some (start, stop))

/-- Arguments are read between two brackets, and by themselves as in the code around them. -/
theorem readArguments_brackets {code : List Char} {front rest : List Glyph}
    (whole : Glyph.ofCode code = front ++ rest) :
    (readArguments rest).1 = none ∨ ∃ inside start stop,
      (readArguments rest).1 = some (Glyph.text inside) ∧
      Brackets (Glyph.ofCode code) inside start stop ∧
      start = skipFrom (maskedBytes (Glyph.ofCode code)) (width front) ∧
      stop + width (readArguments rest).2 ≤ width (Glyph.ofCode code) ∧
      Glyph.ofCode (Glyph.text inside) = inside := by
  -- What is behind an opening bracket is the same code when it stands alone.
  have alone : ∀ {head inner : List Glyph} {opening : Glyph}, opening.shown = '(' →
      Glyph.ofCode code = head ++ opening :: inner →
      LiteralState.code.glyphs (Glyph.text inner) = inner := fun shown split =>
    LiteralState.glyphs_bracket (show LiteralState.code.Fits code from trivial) shown split
  cases readsArguments rest with
  | missing _ read => exact .inl (by rw [read])
  | @unclosed gap inner opening behind spaced shown stays read =>
    obtain ⟨start, opened, next⟩ := skipFrom_opening front behind spaced shown
    have split : front ++ rest = front ++ gap ++ opening :: inner := by
      rw [behind, List.append_assoc]
    rw [whole]
    -- Without a closing bracket, all that is left are arguments.
    refine .inr ⟨inner, width (front ++ gap), width (front ++ rest), by rw [read],
      ⟨opened, .inr ⟨?_, rfl⟩, ?_⟩, start.symm, by rw [read]; simp, alone shown (whole.trans split)⟩
    · rw [split, drop_maskedBytes, stays]
    · have cut := slice?_width (front ++ gap ++ [opening]) inner []
      rw [← width_append, List.append_nil, next] at cut
      rw [split]
      simpa using cut
  | @closed gap inside after opening closing behind spaced shown encloses read =>
    obtain ⟨start, opened, next⟩ := skipFrom_opening front behind spaced shown
    have split : front ++ rest = front ++ gap ++ opening :: (inside ++ closing :: after) := by
      rw [behind, List.append_assoc]
    have last := encloses.size
    have inner := alone shown (whole.trans split)
    rw [whole]
    refine .inr ⟨inside, width (front ++ gap), width (front ++ gap) + (width inside + 1),
      by rw [read], ⟨opened, .inl ?_, ?_⟩, start.symm, ?_, ?_⟩
    · rw [split, drop_maskedBytes, encloses.offset, Nat.add_sub_cancel_left]
    · have cut := slice?_width (front ++ gap ++ [opening]) inside (closing :: after)
      rw [next, Nat.add_assoc, Nat.add_comm 1] at cut
      rw [split]
      simpa using cut
    · have positive := Sized.positive opening
      rw [read, split]
      simp only [width_append, width_cons, last]
      omega
    · refine LiteralState.glyphs_cut .code inner fun glyph first => ?_
      obtain rfl : closing = glyph := by simpa using first
      exact encloses.char_ne

/-- An annotation that is read stands between what is in front of it and what follows. -/
theorem read?_standsAt {code : List Char} {front rest after : List Glyph} {note : AnnotationUse}
    (whole : Glyph.ofCode code = front ++ rest) (found : read? rest = some (note, after)) :
    ∃ place, StandsAt (Glyph.ofCode code) note place ∧
      ∀ span ∈ place, width front ≤ span.1 ∧ span.2 + width after ≤ width (Glyph.ofCode code) ∧
        slice? (span.1 + 1) span.2 (Glyph.ofCode code) = note.args.map Glyph.ofCode := by
  cases rest with
  | nil => cases found
  | cons sign more =>
    have parts : (more.takeWhile fun g => isNameChar g.shown) ++
        more.drop (more.takeWhile fun g => isNameChar g.shown).length = more :=
      List.prefix_iff_eq_append.mp (List.takeWhile_prefix _)
    simp only [read?] at found
    generalize (more.takeWhile fun g => isNameChar g.shown) = name at found parts
    split at found
    case isFalse => cases found
    -- The sign is one byte, the name is cut out behind it, and the brackets are found behind that.
    case isTrue isSign =>
      generalize more.drop name.length = behind at found parts
      cases found
      have one : Sized.size sign = 1 := size_of_shown (by decide) (by decide) isSign.1
      have split : Glyph.ofCode code = (front ++ sign :: name) ++ behind := by
        rw [whole, ← parts, List.append_assoc, List.cons_append]
      rcases readArguments_brackets split with
        nothing | ⟨inside, start, stop, given, brackets, spaced, within, alone⟩
      · exact ⟨none, .plain nothing, by simp⟩
      · have signed : (maskedBytes (Glyph.ofCode code))[width front]? = some '@' := by
          rw [whole, getElem?_width (by decide) (by decide)]
          simp [isSign.1]
        have named : slice? (width front + 1) (width (front ++ sign :: name))
            (Glyph.ofCode code) = some name := by
          have cut := slice?_width (front ++ [sign]) name behind
          rw [split]
          simpa [one, Nat.add_assoc] using cut
        refine ⟨some (start, stop), .inBrackets signed named rfl spaced brackets given, ?_⟩
        rintro span ⟨⟩
        refine ⟨?_, within, ?_⟩
        · rw [spaced, skipFrom]
          simp
          omega
        · rw [given, Option.map_some, alone]
          exact brackets.cut

/-- The annotations at the start of code stand there one behind the other. -/
theorem leading_standsAt {code : List Char} (front rest : List Glyph)
    (whole : Glyph.ofCode code = front ++ rest) :
    ∃ places, List.Forall₂ (fun note place => StandsAt (Glyph.ofCode code) note place ∧
        ∀ span ∈ place, slice? (span.1 + 1) span.2 (Glyph.ofCode code) =
          note.args.map Glyph.ofCode) (leading rest).1 places ∧
      (places.filterMap id).Pairwise (fun earlier later => earlier.2 ≤ later.1) ∧
      ∀ span ∈ places.filterMap id, width front ≤ span.1 := by
  rw [leading_eq]
  cases found : read? (skipSpacing rest) with
  | none => exact ⟨[], .nil, by simp, by simp⟩
  | some pair =>
    obtain ⟨note, after⟩ := pair
    have shorter : after.length < rest.length :=
      Nat.lt_of_lt_of_le (read?_length found) (dropWhile_length _ _)
    have spaces := spacing_append rest
    have begins : Glyph.ofCode code =
        (front ++ rest.takeWhile fun glyph => isSpacing glyph.shown) ++ skipSpacing rest := by
      rw [List.append_assoc, spaces, whole]
    -- What is in front grows by the space and by the annotation, and the rest shrinks by both.
    obtain ⟨taken, goesOn⟩ := read?_isSuffix found
    obtain ⟨place, stands, bounds⟩ := read?_standsAt begins found
    have next : Glyph.ofCode code =
        (front ++ (rest.takeWhile fun glyph => isSpacing glyph.shown) ++ taken) ++ after := by
      rw [begins, ← goesOn, List.append_assoc _ taken]
    obtain ⟨places, later, ordered, behind⟩ := leading_standsAt _ after next
    refine ⟨place :: places, .cons ⟨stands, fun span isPlace => (bounds span isPlace).2.2⟩ later, ?_⟩
    have total := congrArg width next
    rw [width_append _ after] at total
    -- An annotation without arguments has no place, so the order is that of the later ones.
    cases place with
    | none =>
      refine ⟨by simpa using ordered, fun span member => ?_⟩
      have far := behind span (by simpa using member)
      simp only [width_append] at far
      omega
    | some span =>
      obtain ⟨least, most, -⟩ := bounds span rfl
      rw [width_append] at least
      refine ⟨List.pairwise_cons.mpr ⟨fun other member => ?_, ordered⟩, fun other member => ?_⟩
      · have far := behind other member
        omega
      · rcases List.mem_cons.mp member with rfl | member
        · omega
        · have far := behind other member
          simp only [width_append] at far
          omega
termination_by rest.length

end AnnotationUse

namespace Glyph

/-- A slice of code is a slice of its text and of its text with literals hidden. -/
theorem slice?_ofCode {code : List Char} {start stop : Nat} {part : List Glyph}
    (cut : slice? start stop (ofCode code) = some part) :
    slice? start stop code = some (text part) ∧
      slice? start stop (mask code) = some (part.flatMap masked) := by
  refine ⟨?_, slice?_flatMap masked width_masked cut⟩
  -- The text writes each character as it is, which keeps its width as the mask does.
  have chars := slice?_flatMap (fun glyph => [glyph.char]) (fun glyph => by simp [Sized.size]) cut
  have each (code : List Glyph) : code.flatMap (fun glyph => [glyph.char]) = text code := by
    rw [text, List.map_eq_flatMap]
  rwa [each, each, ofCode, LiteralState.text_glyphs] at chars

/--
Hiding the literals of code leaves each byte where it is.

What comes out is a text, in as many bytes. Each of them is that of the code or a space, and line
breaks are where they were. Outside of literals, and where their quotes are, everything is left; in
place of their contents there is nothing but white space. Doing it again changes nothing, and the
arguments of each annotation in front have the same hidden as their part of the code.
-/
theorem mask_geometry (code : List Char) :
    let hidden := MaskState.code.mask (byteChars code)
    hidden = byteChars (mask code) ∧ hidden.length = (byteChars code).length ∧
      List.Forall₂ IsLeft (byteChars code) hidden ∧
      (∃ row, Stretch.Divides row code) ∧
      (∀ row, Stretch.Divides row code → mask code = row.flatMap (·.blank.text) ∧
        ∀ stretch ∈ row, width stretch.blank.body = width stretch.body ∧
          ∀ c ∈ stretch.blank.body, c = ' ' ∨ c = '\n') ∧
      MaskState.code.mask hidden = hidden ∧
      ∃ places, List.Forall₂ (fun note place => AnnotationUse.StandsAt (ofCode code) note place ∧
          ∀ span ∈ place, ∃ args, note.args = some args ∧
            slice? (span.1 + 1) span.2 code = some args ∧
            slice? (span.1 + 1) span.2 (mask code) = some (mask args))
          (AnnotationUse.leading (ofCode code)).1 places ∧
        (places.filterMap id).Pairwise fun earlier later => earlier.2 ≤ later.1 := by
  intro hidden
  have same : hidden = byteChars (mask code) := MaskState.mask_ofCode code
  have left : List.Forall₂ IsLeft (byteChars code) hidden := by
    have each := forall₂_isLeft (keepsLines_ofCode code)
    rwa [ofCode, LiteralState.text_glyphs, ← ofCode, ← MaskState.mask_ofCode] at each
  -- Spaces take the place of a character byte by byte, which leaves its width as it was.
  have blankWidth (stretch : Stretch) : width stretch.blank.body = width stretch.body := by
    have each (text : List Char) :
        width (text.flatMap fun c => (inside c).masked) = width text := by
      induction text with
      | nil => rfl
      | cons c text ih => rw [List.flatMap_cons, width_append, width_masked, ih]; rfl
    exact each stretch.body
  refine ⟨same, left.length_eq.symm, left, Stretch.exists_divides code, fun row divides =>
    ⟨divides.mask_eq, fun stretch _ => ⟨blankWidth stretch, Stretch.mem_blank⟩⟩, ?_, ?_⟩
  -- What is hidden once is code like any other, and hiding changes no code that is hidden.
  · have again := MaskState.mask_ofCode (mask code)
    rw [show maskedBytes (ofCode (mask code)) = byteChars (mask (mask code)) from rfl,
      mask_mask] at again
    rw [same, again]
  · obtain ⟨places, stand, ordered, -⟩ := AnnotationUse.leading_standsAt [] (ofCode code) rfl
    refine ⟨places, stand.imp fun note place found => ⟨found.1, fun span isPlace => ?_⟩, ordered⟩
    obtain ⟨stands, cut⟩ := found
    cases given : note.args with
    | none =>
      cases stands with
      | plain nothing => cases isPlace
      | inBrackets signed named simple spaced brackets args => simp [given] at args
    | some args =>
      have cut := cut span isPlace
      rw [given, Option.map_some] at cut
      obtain ⟨chars, spaces⟩ := slice?_ofCode cut
      rw [ofCode, LiteralState.text_glyphs] at chars
      exact ⟨args, rfl, chars, spaces⟩

/-- An annotation with a comma, a quote and a bracket in a literal. -/
def quotedArgument : List Char :=
  "@Q(\"a,\\\"(\")".toList

/-- The stretches of the annotation. -/
def quotedRow : List Stretch :=
  [⟨['@'], [], []⟩, ⟨['Q'], [], []⟩, ⟨['('], [], []⟩, ⟨['"'], "a,\\\"(".toList, ['"']⟩,
    ⟨[')'], [], []⟩]

/-- The bracket in the literal is hidden, and so the one behind it closes the arguments. -/
theorem mask_geometry_quoted :
    Stretch.Divides quotedRow quotedArgument ∧
      mask quotedArgument = quotedRow.flatMap (·.blank.text) ∧
      mask quotedArgument = "@Q(\"     \")".toList ∧
      ∃ places, List.Forall₂ (fun note place => AnnotationUse.StandsAt (ofCode quotedArgument) note
          place ∧ ∀ span ∈ place, ∃ args, note.args = some args ∧
            slice? (span.1 + 1) span.2 quotedArgument = some args ∧
            slice? (span.1 + 1) span.2 (mask quotedArgument) = some (mask args))
        [⟨['Q'], some "\"a,\\\"(\"".toList⟩] places := by
  -- Three characters are plain, then comes the literal with its escape, and the last one is plain.
  have divides : Stretch.Divides quotedRow quotedArgument :=
    .plain (by decide) (.plain (by decide) (.plain (by decide) (.closed (.inl rfl)
      (.char (by decide) (by decide) (by decide) (.char (by decide) (by decide) (by decide)
        (.escape (by decide) (.char (by decide) (by decide) (by decide) .nil))))
      (by decide) (.plain (by decide) .nil))))
  obtain ⟨-, -, -, -, rows, -, places, stand, -⟩ := mask_geometry quotedArgument
  have leading : (AnnotationUse.leading (ofCode quotedArgument)).1 =
      [⟨['Q'], some "\"a,\\\"(\"".toList⟩] := by decide +kernel
  exact ⟨divides, (rows quotedRow divides).1, by decide +kernel, places, leading ▸ stand⟩

end Glyph

end IndexAudit
