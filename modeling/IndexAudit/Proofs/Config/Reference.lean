import IndexAudit.Config.Environment
import Mathlib.Data.List.Infix
import Mathlib.Data.List.TakeWhile

/-!
The references of a text, as pieces of it with characters between them.

A text is what its pieces spell, so references can be replaced by the piece.
-/

namespace IndexAudit

namespace Environment

/-- How a text refers to a variable. -/
def reference (name : List Char) : List Char :=
  '$' :: '{' :: (name ++ ['}'])

/-- The text that stands for a variable, if it is set. -/
def text? (environment : Environment) (name : List Char) : Option (List Char) :=
  (environment.value? (String.ofList name)).map String.toList

/-- A text in pieces: its references, and all characters apart from these. -/
inductive Piece where
  | char (c : Char)
  | reference (name : List Char)

namespace Piece

/-- A piece as it is written. -/
def text : Piece → List Char
  | .char c => [c]
  | .reference name => Environment.reference name

/-- The name that a piece refers to. -/
def name? : Piece → Option (List Char)
  | .char _ => none
  | .reference name => some name

/-- A piece with a text in place of the reference that it is, as far as there is one. -/
def fill (texts : List Char → Option (List Char)) : Piece → List Piece
  | .char c => [.char c]
  | .reference name =>
    match texts name with
    | some text => text.map .char
    | none => [.reference name]

end Piece

/-- The pieces of a text of at most a number of characters. -/
def piecesWithin : (length : Nat) → List Char → List Piece
  | 0, _ => []
  | _, [] => []
  -- A reference takes at least its own characters, so the length goes down with each piece.
  | length + 1, c :: rest =>
    match readReference? (c :: rest) with
    | some (name, after) => .reference name :: piecesWithin length after
    | none => .char c :: piecesWithin length rest

/-- The pieces of a text. -/
def pieces (text : List Char) : List Piece :=
  piecesWithin text.length text

/-- Pieces as they are written. -/
def spell (pieces : List Piece) : List Char :=
  pieces.flatMap Piece.text

/-- Pieces with texts in place of references; a reference without one is kept. -/
def fill (texts : List Char → Option (List Char)) (pieces : List Piece) : List Piece :=
  pieces.flatMap (Piece.fill texts)

/-- A text with its references replaced, each of them once and all of them in the text as it was. -/
def replaceReferences (texts : List Char → Option (List Char)) (text : List Char) : List Char :=
  spell (fill texts (pieces text))

/-! ### What is read -/

/-- A name goes up to the brace behind it. -/
theorem span_brace {name : List Char} (inside : '}' ∉ name) (rest : List Char) :
    (name ++ '}' :: rest).span (· != '}') = (name, '}' :: rest) := by
  -- No character of the name is the brace, so all of them are taken.
  have all : ∀ c ∈ name, (c != '}') = true := fun c member =>
    bne_iff_ne.mpr fun same => inside (same ▸ member)
  rw [List.span_eq_takeWhile_dropWhile, List.takeWhile_append_of_pos all,
    List.dropWhile_append_of_pos all]
  simp

/-- A reference is read where it stands. -/
theorem readReference?_reference {name : List Char} (named : name ≠ []) (inside : '}' ∉ name)
    (rest : List Char) : readReference? (reference name ++ rest) = some (name, rest) := by
  -- The name has a first character, so what stands between the braces is not empty.
  obtain ⟨c, more, rfl⟩ := List.exists_cons_of_ne_nil named
  have span := span_brace inside rest
  simp only [reference, List.cons_append, List.append_assoc, List.nil_append] at span ⊢
  simp only [readReference?, span]

/-- What is read is a reference. -/
theorem eq_of_readReference? {text name after : List Char}
    (found : readReference? text = some (name, after)) :
    text = reference name ++ after ∧ name ≠ [] ∧ '}' ∉ name := by
  unfold readReference? at found
  split at found
  · next rest =>
    simp only [List.span_eq_takeWhile_dropWhile] at found
    have whole := @List.takeWhile_append_dropWhile _ (· != '}') rest
    -- The name ends in front of the first brace, and has none itself.
    have inside : '}' ∉ rest.takeWhile (· != '}') := fun member => by
      simpa using List.mem_takeWhile_imp member
    split at found
    · next c more d behind front back =>
      obtain ⟨same, rfl⟩ := Prod.mk.inj (Option.some.inj found)
      -- What the name ends in front of is that brace.
      obtain rfl : d = '}' := by
        have stops := List.head?_dropWhile_not (· != '}') rest
        rw [back] at stops
        simpa using stops
      rw [same] at front whole inside
      rw [back] at whole
      refine ⟨?_, by rw [front]; exact List.cons_ne_nil c more, inside⟩
      rw [← whole]
      simp [reference]
    · cases found
  · cases found

/-! ### Pieces -/

@[simp] theorem spell_nil : spell [] = [] :=
  rfl

@[simp] theorem spell_cons (piece : Piece) (pieces : List Piece) :
    spell (piece :: pieces) = piece.text ++ spell pieces :=
  rfl

/-- Pieces one behind the other are written so. -/
theorem spell_append (front back : List Piece) :
    spell (front ++ back) = spell front ++ spell back :=
  List.flatMap_append

/-- Characters are written as they are. -/
@[simp] theorem spell_chars (text : List Char) : spell (text.map .char) = text := by
  -- cons c text ih|Each character is a piece and written as itself.
  induction text with
  | nil => rfl
  | cons c text ih => rw [List.map_cons, spell_cons, ih]; rfl

section Fill

variable {texts : List Char → Option (List Char)}

@[simp] theorem fill_nil : fill texts [] = [] :=
  rfl

@[simp] theorem fill_char (c : Char) (pieces : List Piece) :
    fill texts (.char c :: pieces) = .char c :: fill texts pieces :=
  rfl

/-- A reference with a text is replaced by the characters of that text. -/
theorem fill_some {name text : List Char} (known : texts name = some text) (pieces : List Piece) :
    fill texts (.reference name :: pieces) = text.map .char ++ fill texts pieces := by
  rw [fill, List.flatMap_cons, Piece.fill, known]
  rfl

/-- A reference without a text is kept. -/
theorem fill_none {name : List Char} (unknown : texts name = none) (pieces : List Piece) :
    fill texts (.reference name :: pieces) = .reference name :: fill texts pieces := by
  rw [fill, List.flatMap_cons, Piece.fill, unknown]
  rfl

/-- Pieces one behind the other are filled each on their own. -/
theorem fill_append (front back : List Piece) :
    fill texts (front ++ back) = fill texts front ++ fill texts back :=
  List.flatMap_append

/-- There is nothing to fill in characters. -/
@[simp] theorem fill_chars (text : List Char) :
    fill texts (text.map Piece.char) = text.map Piece.char := by
  -- Characters are filled one by one, and each by itself.
  induction text with
  | nil => rfl
  | cons c text ih => rw [List.map_cons, fill_char, ih]

/-- The references that are left are those without a text. -/
theorem reference_mem_fill {name : List Char} {pieces : List Piece} :
    .reference name ∈ fill texts pieces ↔ .reference name ∈ pieces ∧ texts name = none := by
  induction pieces with
  | nil => simp
  | cons piece pieces ih =>
    cases piece with
    | char c => simp [ih]
    | reference other =>
      cases known : texts other with
      | none =>
        rw [fill_none known]
        by_cases same : name = other
        · simp [same, known]
        · simp [same, ih]
      | some text =>
        rw [fill_some known]
        by_cases same : name = other
        -- A text that is brought in consists of characters.
        · subst same
          simp [known, ih]
        · simp [same, ih]

/-- Texts that agree on the references fill them alike. -/
theorem fill_congr {others : List Char → Option (List Char)} {pieces : List Piece}
    (alike : ∀ name, .reference name ∈ pieces → texts name = others name) :
    fill texts pieces = fill others pieces := by
  refine List.flatMap_congr fun piece member => ?_
  -- Only references are filled, and for each of those the texts agree.
  cases piece with
  | char c => rfl
  | reference name => rw [Piece.fill, Piece.fill, alike name member]

/-- Pieces are written as before if each reference is filled with itself. -/
theorem spell_fill_self {pieces : List Piece}
    (same : ∀ name text, texts name = some text → text = reference name) :
    spell (fill texts pieces) = spell pieces := by
  induction pieces with
  | nil => rfl
  | cons piece pieces ih =>
    cases piece with
    | char c => rw [fill_char, spell_cons, spell_cons, ih]
    | reference name =>
      -- A reference is replaced by what it is written as, or not at all.
      cases known : texts name with
      | none => rw [fill_none known, spell_cons, spell_cons, ih]
      | some text =>
        rw [fill_some known, spell_append, spell_chars, spell_cons, ih, same name text known]
        rfl

end Fill

/-- All characters of a text are read if as many as it has may be. -/
theorem piecesWithin_eq {length : Nat} {text : List Char} (bounded : text.length ≤ length) :
    piecesWithin length text = pieces text := by
  -- A piece may take several characters, so all shorter lengths are assumed.
  induction length using Nat.strong_induction_on generalizing text with
  | _ length ih =>
  rw [pieces]
  cases length with
  | zero => rw [Nat.le_zero.mp bounded]
  | succ length =>
    cases text with
    | nil => rfl
    | cons c rest =>
      have shorter : rest.length ≤ length := Nat.le_of_succ_le_succ bounded
      rw [List.length_cons, piecesWithin, piecesWithin]
      cases found : readReference? (c :: rest) with
      | none =>
        simp only
        rw [ih length (Nat.lt_succ_self _) shorter]
        rfl
      | some read =>
        obtain ⟨name, after⟩ := read
        have less : after.length ≤ rest.length := by
          have whole := congrArg List.length (eq_of_readReference? found).1
          simp only [reference, List.length_cons, List.length_append] at whole
          omega
        -- Behind a reference both lengths are enough for what it leaves.
        simp only
        rw [ih length (Nat.lt_succ_self _) (less.trans shorter),
          ih rest.length (Nat.lt_succ_of_le shorter) less]

/-- A text that begins with a reference has it for its first piece. -/
theorem pieces_reference {name : List Char} (named : name ≠ []) (inside : '}' ∉ name)
    (rest : List Char) : pieces (reference name ++ rest) = .reference name :: pieces rest := by
  have read := readReference?_reference named inside rest
  -- The characters of the reference are more than enough for the pieces behind it.
  have longer : rest.length ≤ ('{' :: (name ++ ['}']) ++ rest).length := by
    simp only [List.length_append]
    omega
  rw [pieces]
  unfold reference at read ⊢
  rw [List.cons_append, List.length_cons, piecesWithin, ← List.cons_append, read]
  simp only
  rw [piecesWithin_eq longer]

/-- A text that does not begin with a reference has its first character for its first piece. -/
theorem pieces_char {c : Char} {rest : List Char} (unread : readReference? (c :: rest) = none) :
    pieces (c :: rest) = .char c :: pieces rest := by
  -- No reference is read, so the piece is the character.
  rw [pieces, List.length_cons, piecesWithin, unread]
  rfl

/-- A text is what its pieces spell, and each reference in them has a name without a brace. -/
theorem spell_pieces (text : List Char) :
    spell (pieces text) = text ∧
      ∀ name, .reference name ∈ pieces text → name ≠ [] ∧ '}' ∉ name := by
  -- By the length of the text, as a reference takes its whole name off the front.
  induction size : text.length using Nat.strong_induction_on generalizing text with
  | _ length ih =>
  subst size
  cases text with
  | nil => exact ⟨rfl, fun name member => absurd member List.not_mem_nil⟩
  | cons c rest =>
    cases found : readReference? (c :: rest) with
    | none =>
      obtain ⟨spelled, named⟩ := ih rest.length (Nat.lt_succ_self _) rest rfl
      rw [pieces_char found, spell_cons, spelled]
      exact ⟨rfl, fun name member => named name (by simpa using member)⟩
    | some read =>
      obtain ⟨name, after⟩ := read
      obtain ⟨whole, named, inside⟩ := eq_of_readReference? found
      have less : after.length < (c :: rest).length := by
        rw [whole]
        simp only [reference, List.length_cons, List.length_append]
        omega
      obtain ⟨spelled, later⟩ := ih after.length less after rfl
      rw [whole, pieces_reference named inside, spell_cons, spelled]
      refine ⟨rfl, fun other member => ?_⟩
      rcases List.mem_cons.mp member with same | behind
      · obtain rfl := Piece.reference.inj same
        exact ⟨named, inside⟩
      · exact later other behind

/-- The names that a text refers to are those of its pieces. -/
theorem references_eq (text : List Char) :
    references text = (pieces text).filterMap Piece.name? := by
  -- Both go along the text in the same steps, so the induction is on their number.
  suffices ∀ length text,
      referencesWithin length text = (piecesWithin length text).filterMap Piece.name? from this _ _
  intro length
  induction length with
  | zero => exact fun _ => rfl
  | succ length ih =>
    intro text
    cases text with
    | nil => rfl
    | cons c rest =>
      rw [referencesWithin, piecesWithin]
      cases readReference? (c :: rest) with
      | none => exact ih rest
      | some read => simp only [ih, List.filterMap_cons, Piece.name?]

/-- A text refers to a name exactly where one of its pieces does. -/
theorem mem_references {text name : List Char} :
    name ∈ references text ↔ .reference name ∈ pieces text := by
  rw [references_eq, List.mem_filterMap]
  constructor
  · -- Of the pieces, only references have a name.
    rintro ⟨piece, member, found⟩
    cases piece with
    | char c => cases found
    | reference other =>
      obtain rfl := Option.some.inj found
      exact member
  · exact fun member => ⟨_, member, rfl⟩

end Environment

end IndexAudit
