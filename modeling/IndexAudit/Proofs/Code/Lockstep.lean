import IndexAudit.Proofs.Code.Closed
import IndexAudit.Proofs.Code.Spelling
import Mathlib.Data.List.Chain

/-!
The scan for literals keeps in step with the scan for comments that left it the code.

Both scans look a few characters ahead, but one of them at the text and the other at its code.
What a comment leaves in its place fuses no two characters into a quote or a comment marker, so
both see the same.
-/

namespace IndexAudit

/-! What a scan sees in front of it. -/

namespace SourceState

/-- Two texts that a scan cannot tell apart from in front of a character they stand behind. -/
structure SameAhead (state : SourceState) (c : Char) (rest other : List Char) : Prop where
  line : state = .code → c = '/' → (rest.head? = some '/' ↔ other.head? = some '/')
  block : state = .code → c = '/' → (rest.head? = some '*' ↔ other.head? = some '*')
  closing : state = .blockComment → (rest.head? = some '/' ↔ other.head? = some '/')
  quotes : ∀ count,
    rest.take count = List.replicate count '"' ↔ other.take count = List.replicate count '"'
  escaped : state = .string ∨ state = .character → c = '\\' →
    rest.head?.any (· != '\n') = other.head?.any (· != '\n')

/-- A scan makes the same of a character before two texts that it cannot tell apart. -/
theorem SameAhead.step_eq {state : SourceState} {c : Char} {rest other : List Char}
    (same : SameAhead state c rest other) : state.step c rest = state.step c other := by
  have two : rest.take 2 = ['"', '"'] ↔ other.take 2 = ['"', '"'] := same.quotes 2
  have three : rest.take 3 = ['"', '"', '"'] ↔ other.take 3 = ['"', '"', '"'] := same.quotes 3
  -- Each place looks ahead for its own marks alone, and those are the same in both texts.
  cases state with
  | code =>
    have line : c = '/' ∧ rest.head? = some '/' ↔ c = '/' ∧ other.head? = some '/' :=
      and_congr_right (same.line rfl)
    have block : c = '/' ∧ rest.head? = some '*' ↔ c = '/' ∧ other.head? = some '*' :=
      and_congr_right (same.block rfl)
    simp only [step, line, block, two]
  | blockComment => simp only [step, same.closing rfl]
  | string =>
    by_cases backslash : c = '\\'
    · simp only [step, same.escaped (.inl rfl) backslash]
    · simp only [step, if_neg backslash]
  | character =>
    by_cases backslash : c = '\\'
    · simp only [step, same.escaped (.inr rfl) backslash]
    · simp only [step, if_neg backslash]
  | rawString => simp only [step, two, ne_eq, three]
  | _ => rfl

end SourceState

/-! The two scans side by side. -/

/-- Where the scan for literals stands when the scan for comments stands here. -/
def SourceState.literal : SourceState → LiteralState
  | .code => .code
  | .lineComment => .code
  | .blockOpening => .code
  | .blockComment => .code
  | .blockClosing => .code
  | .string => .string
  | .stringEscape => .stringEscape
  | .character => .character
  | .characterEscape => .characterEscape
  | .rawOpening left => .rawOpening left
  | .rawString => .rawString
  | .rawClosing left => .rawClosing left

namespace LiteralState

/-- Where the scan for comments stands in code when the scan for literals stands here. -/
def source : LiteralState → SourceState
  | .code => .code
  | .string => .string
  | .stringEscape => .stringEscape
  | .character => .character
  | .characterEscape => .characterEscape
  | .rawOpening left => .rawOpening left
  | .rawString => .rawString
  | .rawClosing left => .rawClosing left

/-- Whether a scan stands among the contents of a literal, and not at its quotes. -/
def isInside : LiteralState → Bool
  | .code => false
  | .rawOpening _ => false
  | .rawClosing _ => false
  | _ => true

@[simp] theorem literal_source (state : LiteralState) : state.source.literal = state := by
  cases state <;> rfl

end LiteralState

/-- A character of code, and where a scan stands in front of it and behind it. -/
structure Reading where
  char : Char
  before : LiteralState
  after : LiteralState
deriving Repr, DecidableEq

namespace Reading

/-- Whether the character belongs to the contents of a literal, as no line break does. -/
def isContent (reading : Reading) : Bool :=
  reading.before.isInside && reading.after.isInside && reading.char != '\n'

/-- The character, hidden if it belongs to the contents of a literal. -/
def glyph (reading : Reading) : Glyph :=
  ⟨reading.char, reading.isContent⟩

end Reading

/-- How the scan for literals goes through code. -/
def LiteralState.readings (state : LiteralState) : List Char → List Reading
  | [] => []
  | c :: rest =>
    let next := (state.step c rest).2
    ⟨c, state, next⟩ :: readings next rest

/-- How the scan for comments goes through the characters of a text that it leaves as code. -/
def SourceState.readings (state : SourceState) : List Char → List Reading
  | [] => []
  | c :: rest =>
    if c = '\n' then
      ⟨c, state.literal, state.afterLineBreak.literal⟩ :: readings state.afterLineBreak rest
    else if c = '\r' ∧ ¬ state.protects then readings state rest
    else
      let taken := state.step c rest
      (SourcePiece.codeOf taken.1).map (⟨·, state.literal, taken.2.literal⟩) ++
        readings taken.2 rest

/-- Each carriage return that anything stands behind stands in front of a line break. -/
def ReturnsEndLines (text : List Char) : Prop :=
  text.IsChain fun c next => c = '\r' → next = '\n'

/-- Whether carriage returns end lines is decided by looking at each two characters. -/
instance (text : List Char) : Decidable (ReturnsEndLines text) :=
  inferInstanceAs (Decidable (text.IsChain _))

/-- The condition on carriage returns holds of what stands behind a character too. -/
theorem ReturnsEndLines.tail {c : Char} {rest : List Char} (lines : ReturnsEndLines (c :: rest)) :
    ReturnsEndLines rest :=
  List.IsChain.tail lines

/-- What a scan for literals relies on in front of it. -/
def LiteralState.Fits : LiteralState → List Char → Prop
  | .stringEscape, text => text.head?.any (· != '\n') = true
  | .characterEscape, text => text.head?.any (· != '\n') = true
  | .rawOpening left, text => 0 < left ∧ text.take left = List.replicate left '"'
  | .rawClosing left, text => 0 < left ∧ text.take left = List.replicate left '"'
  | _, _ => True

/-! One step of both scans. -/

open SourcePiece (codeOf)

/-- A run that begins with quotes is a quote, and one quote less behind it. -/
theorem quotes_cons {left : Nat} {c : Char} {rest : List Char} (some_left : 0 < left)
    (quotes : (c :: rest).take left = List.replicate left '"') :
    c = '"' ∧ rest.take (left - 1) = List.replicate (left - 1) '"' := by
  -- There is a quote left, so the run is that one and the others.
  obtain ⟨count, rfl⟩ : ∃ count, left = count + 1 := ⟨left - 1, by omega⟩
  rw [List.replicate_succ, List.take_succ_cons] at quotes
  exact List.cons.inj quotes

/-- A run that begins with quotes begins with a quote. -/
theorem head_quotes {text : List Char} {count : Nat}
    (quotes : text.take (count + 1) = List.replicate (count + 1) '"') : text.head? = some '"' := by
  -- The empty text does not begin with a quote.
  cases text with
  | nil => simp [List.replicate_succ] at quotes
  | cons c rest => rw [(quotes_cons (by omega) quotes).1, List.head?_cons]

namespace SourceState

variable {c : Char} {rest : List Char}

/-- Whether a comment is being read. -/
def isComment (state : SourceState) : Prop :=
  state.literal = .code ∧ state ≠ .code

/-- A line break leads both scans to the same place. -/
theorem afterLineBreak_literal (state : SourceState) :
    state.literal.source.afterLineBreak = state.afterLineBreak.literal.source := by
  -- There are few states, and each is looked at.
  cases state <;> rfl

/-- From the same place in code, both scans go to the same place. -/
theorem step_literal (state : LiteralState) (rest : List Char) (inLine : c ≠ '\n') :
    (state.source.step c rest).2.literal = (state.step c rest).2 := by
  -- Behind a backslash anything goes; in the other states the same characters are looked for.
  cases state with
  | stringEscape => rfl
  | characterEscape => rfl
  | _ =>
    simp only [LiteralState.source, LiteralState.step, step]
    split_ifs <;> simp_all [literal]

/-- One step keeps a character as code, passes it over as a comment, or ends a block comment. -/
theorem step_cases (state : SourceState) (c : Char) (rest : List Char) :
    (state = state.literal.source ∧ (state.step c rest).1 = [.code c] ∧
        (state.step c rest).2 = (state.step c rest).2.literal.source) ∨
      (state.literal = .code ∧ (state.step c rest).1 = [.comment c] ∧
        (state.step c rest).2.isComment) ∨
      (state.literal = .code ∧ (state.step c rest).1 = [.comment c, .code ' '] ∧
        (state.step c rest).2 = .code) := by
  -- Only code and block comments have a choice here, and only the end of a comment is a space.
  cases state with
  | code =>
    by_cases line : c = '/' ∧ rest.head? = some '/'
    · exact .inr (.inl (by simp [step, line, isComment, literal]))
    by_cases block : c = '/' ∧ rest.head? = some '*'
    · exact .inr (.inl (by simp [step, block, isComment, literal]))
    refine .inl ⟨rfl, ?_⟩
    simp only [step, if_neg line, if_neg block]
    split_ifs <;> exact ⟨rfl, rfl⟩
  | lineComment => exact .inr (.inl ⟨rfl, rfl, rfl, by simp [step]⟩)
  | blockOpening => exact .inr (.inl ⟨rfl, rfl, rfl, by simp [step]⟩)
  | blockComment =>
    refine .inr (.inl ⟨rfl, rfl, ?_⟩)
    simp only [step]
    split_ifs <;> exact ⟨rfl, by simp⟩
  | blockClosing => exact .inr (.inr ⟨rfl, rfl, rfl⟩)
  | stringEscape => exact .inl ⟨rfl, rfl, rfl⟩
  | characterEscape => exact .inl ⟨rfl, rfl, rfl⟩
  | _ =>
    refine .inl ⟨rfl, ?_⟩
    simp only [step]
    split_ifs <;> simp [literal, LiteralState.source]

/-- The code behind a place inside a comment begins with a line break, or with a space. -/
theorem head_codeOf_comment {state : SourceState} (comment : state.isComment) (text : List Char) :
    ∀ d ∈ (codeOf (state.pieces text)).head?, d = '\n' ∨ d = ' ' := by
  -- By induction on the text: nothing is left of a comment until its line or the comment ends.
  induction text generalizing state with
  | nil => simp [pieces, codeOf]
  | cons c rest ih =>
    by_cases ends : c = '\n'
    · simp [pieces, ends, codeOf]
    by_cases returns : c = '\r' ∧ ¬ state.protects
    · simpa only [pieces, if_neg ends, if_pos returns] using ih comment
    simp only [pieces, if_neg ends, if_neg returns]
    rcases step_cases state c rest with ⟨same, -⟩ | ⟨-, taken, next⟩ | ⟨-, taken, -⟩
    · rw [comment.1] at same
      exact absurd same comment.2
    · simpa [taken, codeOf] using ih next
    · simp [taken, codeOf]

/-- The code behind a place in code begins as the text does, or with a line break or a space. -/
theorem head_codeOf (state : LiteralState) {text : List Char} (lines : ReturnsEndLines text) :
    ∀ d ∈ (codeOf (state.source.pieces text)).head?,
      d = '\n' ∨ d = ' ' ∨ text.head? = some d := by
  cases text with
  | nil => simp [pieces, codeOf]
  | cons c rest =>
    by_cases ends : c = '\n'
    · simp [pieces, ends, codeOf]
    by_cases returns : c = '\r' ∧ ¬ state.source.protects
    · -- A carriage return is passed over, and a line break comes behind it.
      simp only [pieces, if_neg ends, if_pos returns]
      cases rest with
      | nil => simp [pieces, codeOf]
      | cons d rest =>
        obtain rfl : d = '\n' := (List.isChain_cons_cons.mp lines).1 returns.1
        simp [pieces, codeOf]
    simp only [pieces, if_neg ends, if_neg returns]
    -- A comment leaves a line break or a space in front of the code behind it.
    rcases step_cases state.source c rest with
      ⟨-, taken, -⟩ | ⟨-, taken, next⟩ | ⟨-, taken, -⟩
    · simp [taken, codeOf]
    · intro d first
      have := head_codeOf_comment next rest d (by simpa [taken, codeOf] using first)
      exact this.imp_right .inl
    · simp [taken, codeOf]

/-- A quote in code or in a literal is kept as code. -/
theorem step_quote (state : LiteralState) (rest : List Char) :
    (state.source.step '"' rest).1 = [.code '"'] := by
  -- In code the quote opens a literal, in its own literal it ends it, and in another it is
  -- contents.
  cases state <;> simp only [LiteralState.source, step] <;> split_ifs <;> simp_all

/-- As many quotes come next in the code as in the text. -/
theorem take_codeOf (state : LiteralState) {text : List Char} (lines : ReturnsEndLines text)
    (count : Nat) :
    (codeOf (state.source.pieces text)).take count = List.replicate count '"' ↔
      text.take count = List.replicate count '"' := by
  induction count generalizing state text with
  | zero => simp
  | succ count ih =>
    by_cases quote : text.head? = some '"'
    · -- The quote is kept, and what comes behind it is compared in turn.
      obtain ⟨rest, rfl⟩ := List.head?_eq_some_iff.mp quote
      have taken := step_quote state rest
      rcases step_cases state.source '"' rest with
        ⟨-, -, next⟩ | ⟨-, other, -⟩ | ⟨-, other, -⟩
      · have behind := ih (state.source.step '"' rest).2.literal lines.tail
        rw [← next] at behind
        simpa [pieces, taken, codeOf, List.replicate_succ] using behind
      · simp [taken] at other
      · simp [taken] at other
    · refine ⟨fun quotes => ?_, fun quotes => absurd (head_quotes quotes) quote⟩
      have first := head_codeOf state lines '"' (head_quotes quotes)
      simp [quote] at first

/-- The code behind a protected character, and behind the end of a line, begins as the text does. -/
theorem head_codeOf_protects {state : SourceState} {text : List Char}
    (escaped : text.head?.any (· != '\n') = true → state.protects = true) :
    (codeOf (state.pieces text)).head? = text.head? := by
  cases text with
  | nil => simp [pieces, codeOf]
  | cons c rest =>
    by_cases ends : c = '\n'
    · simp [pieces, ends, codeOf]
    have escaped := escaped (by simpa using ends)
    -- Only a character behind a backslash is protected, and that is code whatever it is.
    cases state with
    | stringEscape => simp [pieces, ends, protects, step, codeOf]
    | characterEscape => simp [pieces, ends, protects, step, codeOf]
    | _ => cases escaped

/-- A character that is kept as code is read in front of the code as in front of the text. -/
theorem step_codeOf {state : LiteralState} (lines : ReturnsEndLines rest)
    (kept : (state.source.step c rest).1 = [.code c])
    (next : (state.source.step c rest).2 = (state.source.step c rest).2.literal.source) :
    state.source.step c (codeOf ((state.source.step c rest).2.pieces rest)) =
      state.source.step c rest := by
  have mark {d : Char} (isMark : d = '/' ∨ d = '*') (first :
      (codeOf ((state.source.step c rest).2.pieces rest)).head? = some d) :
      rest.head? = some d := by
    rw [next] at first
    rcases isMark with rfl | rfl <;> simpa using head_codeOf _ lines _ first
  -- Had a mark appeared only in the code, the character would not have been kept.
  refine SameAhead.step_eq ⟨fun isCode slash => ⟨mark (.inl rfl), fun first => ?_⟩,
    fun isCode slash => ⟨mark (.inr rfl), fun first => ?_⟩, fun isComment => ?_, ?_,
    fun isPlain backslash => ?_⟩
  · simp [isCode, slash, first, step] at kept
  · simp [isCode, slash, first, step] at kept
  · cases state <;> cases isComment
  · rw [next]
    exact take_codeOf _ lines
  · rw [head_codeOf_protects]
    intro escaped
    rcases isPlain with isPlain | isPlain <;> simp [isPlain, backslash, step, escaped, protects]

end SourceState

namespace LiteralState

/-- Where a scan for literals goes, it finds what it relies on. -/
theorem fits_step {state : LiteralState} {c : Char} {rest : List Char}
    (fits : state.Fits (c :: rest)) : (state.step c rest).2.Fits rest := by
  -- Raw strings rely on the quotes that open and close them, and escapes on what they escape.
  cases state with
  | code =>
    simp only [step]
    split_ifs with raw
    · exact ⟨by decide, raw.2⟩
    all_goals trivial
  | string =>
    simp only [step]
    split_ifs with escape
    · exact escape.2
    all_goals trivial
  | character =>
    simp only [step]
    split_ifs with escape
    · exact escape.2
    all_goals trivial
  | rawOpening left =>
    simp only [step]
    split_ifs with last
    · trivial
    · exact ⟨by omega, (quotes_cons fits.1 fits.2).2⟩
  | rawString =>
    simp only [step]
    split_ifs with raw
    · exact ⟨by decide, raw.2.1⟩
    · trivial
  | rawClosing left =>
    simp only [step]
    split_ifs with last
    · trivial
    · exact ⟨by omega, (quotes_cons fits.1 fits.2).2⟩
  | _ => trivial

/-- A line break leads the scan for literals to where it leads the scan for comments. -/
theorem step_afterLineBreak {state : SourceState} {rest : List Char}
    (fits : state.literal.Fits ('\n' :: rest)) (code : List Char) :
    (state.literal.step '\n' code).2 = state.afterLineBreak.literal := by
  -- A line break is none of the quotes that a raw string waits for.
  cases state with
  | stringEscape => simp [SourceState.literal, Fits] at fits
  | characterEscape => simp [SourceState.literal, Fits] at fits
  | rawOpening left => exact absurd (quotes_cons fits.1 fits.2).1 (by decide)
  | rawClosing left => exact absurd (quotes_cons fits.1 fits.2).1 (by decide)
  | _ => rfl

/-- A carriage return that is passed over is nothing that a scan for literals relies on. -/
theorem fits_return {state : SourceState} {rest : List Char}
    (fits : state.literal.Fits ('\r' :: rest)) (skipped : ¬ state.protects) :
    state.literal.Fits rest := by
  -- A carriage return is none of the quotes that a raw string waits for, nor escaped when skipped.
  cases state with
  | stringEscape => exact absurd rfl skipped
  | characterEscape => exact absurd rfl skipped
  | rawOpening left => exact absurd (quotes_cons fits.1 fits.2).1 (by decide)
  | rawClosing left => exact absurd (quotes_cons fits.1 fits.2).1 (by decide)
  | _ => trivial

/-- Nothing is relied on at the beginning of a line. -/
theorem fits_afterLineBreak (state : SourceState) (text : List Char) :
    state.afterLineBreak.literal.Fits text := by
  cases state <;> trivial

/-- A scan for literals hides what it reads as the contents of literals. -/
theorem glyphs_eq {state : LiteralState} {code : List Char} (fits : state.Fits code) :
    state.glyphs code = (state.readings code).map Reading.glyph := by
  induction code generalizing state with
  | nil => rfl
  | cons c rest ih =>
    have hidden : (state.step c rest).1 = Reading.isContent ⟨c, state, (state.step c rest).2⟩ := by
      -- An escape hides what it protects, which is no line break where the scan relies on that.
      cases state with
      | stringEscape => simpa [Fits, step, Reading.isContent, isInside] using fits
      | characterEscape => simpa [Fits, step, Reading.isContent, isInside] using fits
      | rawString =>
        simp only [step]
        split_ifs with closes
        · simp [Reading.isContent, isInside]
        · by_cases ended : c = '\n' <;> simp [Reading.isContent, isInside, ended]
      | _ =>
        simp only [step]
        split_ifs <;> simp_all [Reading.isContent, isInside]
    simp [glyphs, readings, ih (fits_step fits), Reading.glyph, hidden]

end LiteralState

/-! Whole runs. -/

namespace SourceState

/--
Going through the code of a text again meets no comment, and is going through the text.

By induction on the text, from any place at which the scan finds what it relies on.
-/
theorem reread {state : SourceState} {text : List Char} (lines : ReturnsEndLines text)
    (fits : state.literal.Fits text) :
    state.literal.source.pieces (codeOf (state.pieces text)) =
        (codeOf (state.pieces text)).map SourcePiece.ofChar ∧
      state.literal.readings (codeOf (state.pieces text)) = state.readings text := by
  induction text generalizing state with
  | nil => exact ⟨rfl, rfl⟩
  | cons c rest ih =>
    have ih {state : SourceState} := @ih state lines.tail
    by_cases ends : c = '\n'
    · subst ends
      obtain ⟨pieces_rest, readings_rest⟩ := ih (LiteralState.fits_afterLineBreak state rest)
      simp [pieces, readings, codeOf, LiteralState.readings, afterLineBreak_literal, pieces_rest,
        LiteralState.step_afterLineBreak fits, readings_rest, SourcePiece.ofChar]
    by_cases returns : c = '\r' ∧ ¬ state.protects
    · have rest_reread := ih (LiteralState.fits_return (returns.1 ▸ fits) returns.2)
      simpa only [pieces, readings, if_neg ends, if_pos returns] using rest_reread
    simp only [pieces, readings, if_neg ends, if_neg returns]
    rcases step_cases state c rest with
      ⟨same, kept, next⟩ | ⟨plain, passed, comment⟩ | ⟨plain, ended, next⟩
    · -- The character is code, and both scans look at what they would look at in the text.
      obtain ⟨place, rfl⟩ : ∃ place : LiteralState, state = place.source := ⟨_, same⟩
      rw [LiteralState.literal_source] at fits ⊢
      have goes := step_literal place rest ends
      obtain ⟨pieces_rest, readings_rest⟩ := ih (goes ▸ LiteralState.fits_step fits)
      have seen := step_codeOf lines.tail kept next
      have goes_code := step_literal place
        (codeOf ((place.source.step c rest).2.pieces rest)) ends
      rw [seen, goes] at goes_code
      rw [← next] at pieces_rest
      rw [goes] at readings_rest
      constructor
      · simp only [kept, codeOf, List.singleton_append, pieces, if_neg ends,
          if_neg returns, seen, pieces_rest, List.map_cons, SourcePiece.ofChar]
      · simp [kept, codeOf, LiteralState.readings, ← goes_code, readings_rest, goes]
    · -- Nothing is left of the character, and the code goes on behind it.
      have fits_rest : (state.step c rest).2.literal.Fits rest := by
        rw [comment.1]
        trivial
      have rest_reread := ih fits_rest
      rw [comment.1] at rest_reread
      simpa [plain, passed, codeOf] using rest_reread
    · -- The space that is left is plain code.
      obtain ⟨pieces_rest, readings_rest⟩ := @ih .code trivial
      rw [plain, ended, next]
      have space : SourcePiece.ofChar ' ' = .code ' ' := rfl
      constructor
      · simpa [codeOf, pieces, step, literal, LiteralState.source, space] using pieces_rest
      · simpa [codeOf, LiteralState.readings, LiteralState.step, literal] using readings_rest

end SourceState

namespace SourceLine

/-- A line with its code alone. -/
def withoutComment (line : SourceLine) : SourceLine :=
  { line with comment := [] }

/-- Pieces make up the lines that their code makes up, an empty last line apart. -/
theorem ofPieces_codeOf (number : Nat) (code comment : List Char) {pieces : List SourcePiece}
    (inLines : .code '\n' ∉ pieces) :
    ∃ blank, (ofPieces number code comment pieces).map withoutComment =
        ofPieces number code [] ((codeOf pieces).map SourcePiece.ofChar) ++ blank ∧
      ∀ line ∈ blank, line.code = [] := by
  induction pieces generalizing number code comment with
  | nil =>
    -- A last line with a comment and no code is the one that is not found again.
    simp only [ofPieces, codeOf, List.map_nil]
    by_cases noCode : code = []
    · by_cases noComment : comment = []
      · exact ⟨[], by simp [noCode, noComment], by simp⟩
      · exact ⟨[⟨number, [], []⟩], by simp [noCode, noComment, withoutComment], by simp⟩
    · exact ⟨[], by simp [noCode, withoutComment], by simp⟩
  | cons piece rest ih =>
    obtain ⟨apart, inRest⟩ := List.ne_and_not_mem_of_not_mem_cons inLines
    have ih number code comment := ih number code comment inRest
    cases piece with
    | code c =>
      have inLine : c ≠ '\n' := fun ended => apart (by rw [ended])
      simpa [ofPieces, codeOf, SourcePiece.ofChar, inLine] using
        ih number (code ++ [c]) comment
    | comment c => simpa [ofPieces, codeOf] using ih number code (comment ++ [c])
    | lineBreak =>
      obtain ⟨blank, same, empty⟩ := ih (number + 1) [] []
      exact ⟨blank, by simp [ofPieces, codeOf, SourcePiece.ofChar, same, withoutComment], empty⟩

/-- Line breaks alone make up empty lines. -/
theorem code_of_mem_lineBreaks {number gap : Nat} {line : SourceLine}
    (member : line ∈ ofPieces number [] [] (List.replicate gap .lineBreak)) : line.code = [] := by
  induction gap generalizing number with
  | zero => simp [ofPieces] at member
  | succ gap ih =>
    rw [List.replicate_succ, ofPieces] at member
    -- Each line break ends a line that has nothing on it.
    rcases List.mem_cons.mp member with rfl | later
    · rfl
    · exact ih later

/-- Line breaks behind code make up no lines but empty ones, the end of its last line apart. -/
theorem ofPieces_lineBreaks (number : Nat) (code comment : List Char) (pieces : List SourcePiece)
    (gap : Nat) :
    ∃ blank, ofPieces number code comment (pieces ++ List.replicate gap .lineBreak) =
        ofPieces number code comment pieces ++ blank ∧ ∀ line ∈ blank, line.code = [] := by
  -- What is on the last line so far is carried along, since the first line break ends that.
  induction pieces generalizing number code comment with
  | nil =>
    cases gap with
    | zero => exact ⟨[], by simp, by simp⟩
    | succ gap =>
      by_cases nothing : code = [] ∧ comment = []
      · obtain ⟨rfl, rfl⟩ := nothing
        exact ⟨ofPieces number [] [] (List.replicate (gap + 1) .lineBreak), by simp [ofPieces],
          fun line => code_of_mem_lineBreaks⟩
      · exact ⟨ofPieces (number + 1) [] [] (List.replicate gap .lineBreak),
          by simp [List.replicate_succ, ofPieces, nothing], fun line => code_of_mem_lineBreaks⟩
  | cons piece rest ih =>
    cases piece with
    | code c => exact ih number (code ++ [c]) comment
    | comment c => exact ih number code (comment ++ [c])
    | lineBreak =>
      obtain ⟨blank, same, empty⟩ := ih (number + 1) [] []
      exact ⟨blank, by simp [ofPieces, same], empty⟩

end SourceLine

/-! What stands behind code that ends in line breaks. -/

namespace SourceState

/-- Line breaks behind a text are pieces behind its own. -/
theorem pieces_lineBreaks (state : SourceState) (text : List Char) (gap : Nat) :
    state.pieces (text ++ List.replicate gap '\n') =
      state.pieces text ++ List.replicate gap .lineBreak := by
  have alone (state : SourceState) (gap : Nat) :
      state.pieces (List.replicate gap '\n') = List.replicate gap .lineBreak := by
    induction gap generalizing state with
    | zero => rfl
    | succ gap ih => simp [List.replicate_succ, pieces, ih]
  -- The first line break ends the last line of the text, and the others stand alone.
  cases gap with
  | zero => simp
  | succ gap => simp [List.replicate_succ, pieces_lineBreak, alone]

/-- A line break in code is a piece of its own. -/
theorem lineBreak_notMem_pieces (state : SourceState) (text : List Char) :
    .code '\n' ∉ state.pieces text := by
  induction text generalizing state with
  | nil => simp [pieces]
  | cons c rest ih =>
    by_cases ends : c = '\n'
    · simp [pieces, ends, ih]
    by_cases returns : c = '\r' ∧ ¬ state.protects
    · simpa only [pieces, if_neg ends, if_pos returns] using ih state
    simp only [pieces, if_neg ends, if_neg returns, List.mem_append, not_or]
    -- A step yields the character itself, or a space for a comment.
    refine ⟨?_, ih _⟩
    rcases SourcePiece.step_eq state c rest with taken | taken | taken <;>
      simp [taken, Ne.symm ends]

end SourceState

namespace LiteralState

/-- Every character of code is gone through once. -/
theorem length_readings (state : LiteralState) (code : List Char) :
    (state.readings code).length = code.length := by
  -- Each character has one reading, from whatever state.
  induction code generalizing state with
  | nil => rfl
  | cons c rest ih => simp [readings, ih]

/-- Code is gone through as if no line stood behind it. -/
theorem take_readings (state : LiteralState) (code : List Char) (gap : Nat) :
    (state.readings (code ++ List.replicate gap '\n')).take code.length = state.readings code := by
  cases gap with
  | zero => simp [← length_readings state code]
  | succ gap =>
    induction code generalizing state with
    | nil => rfl
    | cons c rest ih =>
      rw [List.replicate_succ] at ih ⊢
      -- The scan looks ahead, but line breaks at the end do not change what it sees.
      simp [readings, step_lineBreak, ih]

end LiteralState

namespace SourceLine

/-- The code of a text is read again as code alone, and gone through as the text is. -/
theorem readings_codeText {text : List Char} (lines : ReturnsEndLines text) :
    SourceState.code.pieces (codeText (ofText text)) =
        (codeText (ofText text)).map SourcePiece.ofChar ∧
      LiteralState.code.readings (codeText (ofText text)) =
        (SourceState.code.readings text).take (codeText (ofText text)).length := by
  -- The text has left the code, and the line breaks at its end that joining lines leaves out.
  obtain ⟨gap, split⟩ := codeOf_eq 1 [] [] (SourceState.code.pieces text)
  have split : codeOf (SourceState.code.pieces text) =
      codeText (ofText text) ++ List.replicate gap '\n' := split
  obtain ⟨pieces_code, readings_code⟩ := @SourceState.reread .code text lines trivial
  rw [split] at pieces_code readings_code
  constructor
  · have pieces_code :
        SourceState.code.pieces (codeText (ofText text) ++ List.replicate gap '\n') =
          (codeText (ofText text) ++ List.replicate gap '\n').map SourcePiece.ofChar := pieces_code
    rw [SourceState.pieces_lineBreaks, List.map_append, List.map_replicate] at pieces_code
    exact List.append_cancel_right pieces_code
  · rw [← readings_code]
    exact (LiteralState.take_readings .code _ gap).symm

/-- The code of a text makes up the lines of the text without comments, empty last ones apart. -/
theorem ofText_codeText {text : List Char} (lines : ReturnsEndLines text) :
    ∃ blank, (ofText text).map withoutComment = ofText (codeText (ofText text)) ++ blank ∧
      ∀ line ∈ blank, line.code = [] := by
  -- Line breaks at the end of the code are left out of it, and each was the end of a line.
  obtain ⟨gap, split⟩ := codeOf_eq 1 [] [] (SourceState.code.pieces text)
  obtain ⟨last, cleared, noCode⟩ :=
    ofPieces_codeOf 1 [] [] (SourceState.lineBreak_notMem_pieces .code text)
  obtain ⟨ends, ended, empty⟩ :=
    ofPieces_lineBreaks 1 [] [] ((codeText (ofText text)).map SourcePiece.ofChar) gap
  have whole : (codeOf (SourceState.code.pieces text)).map SourcePiece.ofChar =
      (codeText (ofText text)).map SourcePiece.ofChar ++ List.replicate gap .lineBreak := by
    rw [show codeOf (SourceState.code.pieces text) = codeText (ofText text) ++ _ from split,
      List.map_append, List.map_replicate]
    rfl
  refine ⟨ends ++ last, ?_, ?_⟩
  · calc (ofText text).map withoutComment
      _ = ofPieces 1 [] [] ((codeOf (SourceState.code.pieces text)).map SourcePiece.ofChar) ++
          last := cleared
      _ = ofPieces 1 [] [] ((codeText (ofText text)).map SourcePiece.ofChar) ++ ends ++ last := by
        rw [whole, ended]
      _ = ofText (codeText (ofText text)) ++ (ends ++ last) := by
        rw [← (readings_codeText lines).1, List.append_assoc, ← ofText]
  · intro line member
    exact (List.mem_append.mp member).elim (empty line) (noCode line)

/--
The code of a text is gone through as the text is, so the same literals are found in both.

The scan for literals stands in front of each character of the code, and behind it, where the scan
for comments stood. What it hides is what that scan took for the contents of literals. Looking for
comments in the code again finds none, and the same code on the same lines, but for empty lines at
the end.
-/
theorem codeText_reread {text : List Char} (lines : ReturnsEndLines text) :
    let code := codeText (ofText text)
    LiteralState.code.readings code = (SourceState.code.readings text).take code.length ∧
      Glyph.ofCode code =
        ((SourceState.code.readings text).take code.length).map Reading.glyph ∧
      Glyph.mask code = ((SourceState.code.readings text).take code.length).flatMap
        (·.glyph.masked) ∧
      (∀ line ∈ ofText code, line.comment = []) ∧
      ∃ blank, (ofText text).map withoutComment = ofText code ++ blank ∧
        ∀ line ∈ blank, line.code = [] := by
  intro code
  have same : LiteralState.code.readings code =
      (SourceState.code.readings text).take code.length := (readings_codeText lines).2
  have glyphs : Glyph.ofCode code =
      ((SourceState.code.readings text).take code.length).map Reading.glyph := by
    rw [← same]
    exact @LiteralState.glyphs_eq .code code trivial
  have masked : Glyph.mask code = ((SourceState.code.readings text).take code.length).flatMap
      (·.glyph.masked) := by
    rw [Glyph.mask, glyphs, List.flatMap_map]
  obtain ⟨blank, cleared, empty⟩ := ofText_codeText lines
  refine ⟨same, glyphs, masked, fun line member => ?_, blank, cleared, empty⟩
  -- Each line that is found again is one of the text without its comment.
  have cleared_line : line ∈ (ofText text).map withoutComment := by
    rw [cleared]
    exact List.mem_append_left _ member
  obtain ⟨original, -, rfl⟩ := List.mem_map.mp cleared_line
  rfl

/-- A text in which quotes and comment markers stand inside of one another. -/
def quotedText : List Char :=
  ['\r', '\n'].intercalate ([
    "val a = \"x // \\\" y\" /* \" */ + '\"' // \"\"\"",
    "@Query(\"\"\"r \"s\" /*",
    " t\"\"\"\")/**/\"z",
    "// end"].map String.toList)

/-- Only what stands in the quotes of code is hidden, and the comments do not come back. -/
theorem codeText_reread_quoted :
    ReturnsEndLines quotedText ∧
      ((Glyph.ofCode (codeText (ofText quotedText))).filter (·.hidden)).map (·.char) =
        "x // \\\" y\"r \"s\" /* t\"z".toList ∧
      (∀ line ∈ ofText (codeText (ofText quotedText)), line.comment = []) ∧
      (ofText (codeText (ofText quotedText))).map (·.number) = [1, 2, 3] := by
  -- Every carriage return in the text is at the end of a line, so the statement applies.
  have lines : ReturnsEndLines quotedText := by decide +kernel
  obtain ⟨-, glyphs, -, noComment, -⟩ := codeText_reread lines
  exact ⟨lines, by rw [glyphs]; decide +kernel, noComment, by decide +kernel⟩

end SourceLine

end IndexAudit
