import IndexAudit.Code.Glyph
import IndexAudit.Code.Line
import Mathlib.Data.List.Basic
import Mathlib.Tactic.SplitIfs

/-!
Text that leaves no comment and no literal open.

No scan looks further than to the end of a line. So what stands behind such text, on lines of its
own, is read as if it stood alone, and the text is read as if nothing stood behind it.
-/

namespace IndexAudit

/-! Comments. -/

namespace SourceState

/-- Where a scan stands behind a text. -/
def after (state : SourceState) : List Char → SourceState
  | [] => state
  | c :: rest =>
    if c = '\n' then after state.afterLineBreak rest
    else if c = '\r' ∧ ¬ state.protects then after state rest
    else after (state.step c rest).2 rest

/-- What a character contributes does not hang on what stands behind its line. -/
theorem step_lineBreak (state : SourceState) (c : Char) (rest more : List Char) :
    state.step c (rest ++ '\n' :: more) = state.step c rest := by
  -- No more than three characters are looked at, and a line break is none of those looked for.
  match rest with
  | [] => cases state <;> simp [step]
  | [first] => cases state <;> simp [step]
  | [first, second] => cases state <;> simp [step]
  | first :: second :: third :: rest => cases state <;> simp [step]

/-- The pieces behind a line break are read from where the text in front of it ends. -/
theorem pieces_lineBreak (state : SourceState) (text more : List Char) :
    state.pieces (text ++ '\n' :: more) =
      state.pieces text ++ .lineBreak :: (state.after text).afterLineBreak.pieces more := by
  induction text generalizing state with
  | nil => simp [pieces, after]
  | cons c rest ih =>
    rw [List.cons_append]
    -- Each step looks only at its own line, so the break behind the text does not reach it.
    by_cases ends : c = '\n'
    · simp [pieces, after, ends, ih]
    by_cases returns : c = '\r' ∧ ¬ state.protects
    · simp only [pieces, after, if_neg ends, if_pos returns, ih]
    · simp only [pieces, after, if_neg ends, if_neg returns, step_lineBreak, ih, List.append_assoc]

end SourceState

namespace SourcePiece

/-- The code that pieces hold, and the line breaks in it. -/
def codeOf : List SourcePiece → List Char
  | [] => []
  | .code c :: rest => c :: codeOf rest
  | .comment _ :: rest => codeOf rest
  | .lineBreak :: rest => '\n' :: codeOf rest

@[simp] theorem codeOf_append (front back : List SourcePiece) :
    codeOf (front ++ back) = codeOf front ++ codeOf back := by
  -- Pieces give their code one by one.
  induction front with
  | nil => rfl
  | cons piece rest ih => cases piece <;> simp [codeOf, ih]

/-- A character contributes itself, and a space behind it if it closes a block comment. -/
theorem step_eq (state : SourceState) (c : Char) (rest : List Char) :
    (state.step c rest).1 = [.code c] ∨ (state.step c rest).1 = [.comment c] ∨
      (state.step c rest).1 = [.comment c, .code ' '] := by
  -- Each state has its own cases, and in none of them is anything else given.
  cases state <;> simp only [SourceState.step] <;> try split_ifs
  all_goals simp

/-- A character that is no line break contributes none. -/
theorem lineBreak_notMem_step (state : SourceState) {c : Char} (rest : List Char)
    (apart : c ≠ '\n') :
    .lineBreak ∉ (state.step c rest).1 ∧ '\n' ∉ codeOf (state.step c rest).1 := by
  -- Of the pieces that a step can give, only the character itself could be a line break.
  have apart : ¬ '\n' = c := fun same => apart same.symm
  rcases step_eq state c rest with pieces | pieces | pieces <;> rw [pieces] <;> simp [codeOf, apart]

/-- The pieces of a text, and their code, have as many line breaks as the text. -/
theorem count_pieces (state : SourceState) (text : List Char) :
    (state.pieces text).count .lineBreak = text.count '\n' ∧
      (codeOf (state.pieces text)).count '\n' = text.count '\n' := by
  induction text generalizing state with
  | nil => exact ⟨rfl, rfl⟩
  | cons c rest ih =>
    -- A line break is kept as a piece of its own, and no other character makes one.
    by_cases ends : c = '\n'
    · simp [SourceState.pieces, ends, codeOf, ih]
    by_cases returns : c = '\r' ∧ ¬ state.protects
    · simp only [SourceState.pieces, if_neg ends, if_pos returns, ih]
      simp [ends]
    · obtain ⟨noPiece, noCode⟩ := lineBreak_notMem_step state rest ends
      simp only [SourceState.pieces, if_neg ends, if_neg returns, codeOf_append, List.count_append,
        ih, List.count_eq_zero.mpr noPiece, List.count_eq_zero.mpr noCode]
      simp [ends]

end SourcePiece

/-! Lines. -/

namespace SourceLine

/-- A line that stands further down. -/
def below (count : Nat) (line : SourceLine) : SourceLine :=
  { line with number := line.number + count }

/-- Lines are counted from any number on. -/
theorem ofPieces_below (count number : Nat) (code comment : List Char)
    (pieces : List SourcePiece) :
    ofPieces (number + count) code comment pieces =
      (ofPieces number code comment pieces).map (below count) := by
  -- Only a line break looks at the number, and counts one further.
  induction pieces generalizing number code comment with
  | nil =>
    simp only [ofPieces]
    split <;> simp [below]
  | cons piece rest ih =>
    cases piece with
    | code c => simp only [ofPieces, ih]
    | comment c => simp only [ofPieces, ih]
    | lineBreak =>
      have next := ih (number + 1) [] []
      rw [Nat.add_right_comm] at next
      simp only [ofPieces, next, List.map_cons, below]

/-- The lines behind a line break come behind those in front of it. -/
theorem ofPieces_append (number : Nat) (code comment : List Char) (front back : List SourcePiece) :
    ofPieces number code comment (front ++ .lineBreak :: back) =
      ofPieces number code comment (front ++ [.lineBreak]) ++
        ofPieces (number + front.count .lineBreak + 1) [] [] back := by
  induction front generalizing number code comment with
  | nil => simp [ofPieces]
  | cons piece rest ih =>
    cases piece with
    | code c => simpa [ofPieces] using ih number (code ++ [c]) comment
    | comment c => simpa [ofPieces] using ih number code (comment ++ [c])
    -- A break begins a line of the next number, with nothing on it yet.
    | lineBreak =>
      have next := ih (number + 1) [] []
      rw [Nat.add_right_comm number 1] at next
      simpa [ofPieces, Nat.add_assoc] using next

/-- The code of a line comes in front of that of the lines behind it, if there are any. -/
theorem codeText_cons (line : SourceLine) (back : List SourceLine) :
    codeText (line :: back) = line.code ++ if back = [] then [] else '\n' :: codeText back := by
  -- Line breaks stand between lines only, so there is none without a line behind.
  by_cases last : back = []
  · simp [last, codeText]
  · have more : back.map (·.code) ≠ [] := by simpa using last
    simp [last, codeText, List.intercalate_cons_of_ne_nil more]

/-- The code of lines behind others comes behind theirs, with a line break between. -/
theorem codeText_append {front : List SourceLine} (filled : front ≠ []) (back : List SourceLine) :
    codeText (front ++ back) =
      codeText front ++ if back = [] then [] else '\n' :: codeText back := by
  induction front with
  | nil => exact absurd rfl filled
  | cons line rest ih =>
    rw [List.cons_append, codeText_cons, codeText_cons]
    -- The line break between the two parts is that behind the last line in front.
    by_cases last : rest = []
    · simp [last]
    · simp [last, ih last]

/-- Pieces make up no line only if there are none. -/
theorem eq_nil_of_ofPieces {number : Nat} {code comment : List Char} {pieces : List SourcePiece}
    (none : ofPieces number code comment pieces = []) :
    code = [] ∧ comment = [] ∧ pieces = [] := by
  -- Whatever has been put on a line already would make up a line in the end.
  induction pieces generalizing number code comment with
  | nil =>
    rw [ofPieces] at none
    split at none
    · rename_i empty
      simpa using empty
    · cases none
  | cons piece rest ih =>
    cases piece with
    | code c => simpa using (ih none).1
    | comment c => simpa using (ih none).2.1
    | lineBreak => cases none

/-- The code of lines up to a line break is that of their pieces. -/
theorem codeText_lineBreak (number : Nat) (code comment : List Char) (pieces : List SourcePiece) :
    codeText (ofPieces number code comment (pieces ++ [.lineBreak])) =
      code ++ SourcePiece.codeOf pieces := by
  induction pieces generalizing number code comment with
  | nil => simp [ofPieces, codeText, SourcePiece.codeOf]
  | cons piece rest ih =>
    cases piece with
    | code c => simp [ofPieces, ih, SourcePiece.codeOf]
    | comment c => simp [ofPieces, ih, SourcePiece.codeOf]
    | lineBreak =>
      -- The line break at the end makes sure that there is a line behind this one.
      have more : ofPieces (number + 1) [] [] (rest ++ [.lineBreak]) ≠ [] := fun none =>
        absurd (eq_nil_of_ofPieces none).2.2 (by simp)
      have split := codeText_cons ⟨number, code, comment⟩
        (ofPieces (number + 1) [] [] (rest ++ [.lineBreak]))
      rw [if_neg more, ih] at split
      simpa [ofPieces, SourcePiece.codeOf, codeText] using split

/-- The code of pieces ends where that of their lines does, or in a line break behind it. -/
theorem codeOf_eq (number : Nat) (code comment : List Char) (pieces : List SourcePiece) :
    ∃ gap, code ++ SourcePiece.codeOf pieces =
      codeText (ofPieces number code comment pieces) ++ List.replicate gap '\n' := by
  induction pieces generalizing number code comment with
  | nil =>
    refine ⟨0, ?_⟩
    simp only [ofPieces, SourcePiece.codeOf]
    split
    · rename_i empty
      have noCode : code = [] := by simpa using (Bool.and_eq_true_iff.mp empty).1
      simp [noCode, codeText]
    · simp [codeText]
  | cons piece rest ih =>
    cases piece with
    | code c => simpa [ofPieces, SourcePiece.codeOf] using ih number (code ++ [c]) comment
    | comment c => simpa [ofPieces, SourcePiece.codeOf] using ih number code (comment ++ [c])
    | lineBreak =>
      have split := codeText_cons ⟨number, code, comment⟩ (ofPieces (number + 1) [] [] rest)
      by_cases last : ofPieces (number + 1) [] [] rest = []
      · -- An empty last line is left out, but not the line break in front of it.
        refine ⟨1, ?_⟩
        simp [ofPieces, codeText, (eq_nil_of_ofPieces last).2.2, SourcePiece.codeOf]
      · obtain ⟨gap, same⟩ := ih (number + 1) [] []
        refine ⟨gap, ?_⟩
        rw [List.nil_append] at same
        simp [ofPieces, split, last, SourcePiece.codeOf, same]

/-- Lines up to a line break are those of the pieces in front, and maybe an empty one. -/
theorem comment_of_mem_lineBreak {number : Nat} {code comment : List Char}
    {pieces : List SourcePiece} {line : SourceLine}
    (member : line ∈ ofPieces number code comment (pieces ++ [.lineBreak])) :
    line ∈ ofPieces number code comment pieces ∨ line.comment = [] := by
  -- The lines differ in the last one alone, which an empty one may come behind.
  induction pieces generalizing number code comment with
  | nil =>
    obtain rfl : line = ⟨number, code, comment⟩ := by simpa [ofPieces] using member
    by_cases empty : comment = []
    · exact .inr empty
    · simp [ofPieces, empty]
  | cons piece rest ih =>
    cases piece with
    | code c => exact ih member
    | comment c => exact ih member
    | lineBreak =>
      rcases List.mem_cons.mp member with rfl | later
      · simp [ofPieces]
      · exact (ih later).imp_left (List.mem_cons_of_mem _)

end SourceLine

/-! Literals. -/

namespace LiteralState

/-- Where a scan stands behind code. -/
def after (state : LiteralState) : List Char → LiteralState
  | [] => state
  | c :: rest => after (state.step c rest).2 rest

/-- Whether a line break leads back to plain code. -/
def endsWithLine : LiteralState → Bool
  | .code => true
  | .string => true
  | .character => true
  | _ => false

/-- Whether a character is hidden does not hang on what stands behind its line. -/
theorem step_lineBreak (state : LiteralState) (c : Char) (rest more : List Char) :
    state.step c (rest ++ '\n' :: more) = state.step c rest := by
  -- A step looks at three characters at most, and a line break is none that it looks for.
  match rest with
  | [] => cases state <;> simp [step]
  | [first] => cases state <;> simp [step]
  | [first, second] => cases state <;> simp [step]
  | first :: second :: third :: rest => cases state <;> simp [step]

/-- Code behind a line break is read as it is by itself, if nothing is left open in front. -/
theorem glyphs_lineBreak {state : LiteralState} {code : List Char}
    (closed : (state.after code).endsWithLine = true) (more : List Char) :
    state.glyphs (code ++ '\n' :: more) =
      state.glyphs code ++ Glyph.plain '\n' :: LiteralState.code.glyphs more := by
  induction code generalizing state with
  | nil =>
    rw [after] at closed
    -- A break ends code, a string and a character literal; no other state is closed at one.
    cases state with
    | code => simp [glyphs, step, Glyph.plain]
    | string => simp [glyphs, step, Glyph.plain]
    | character => simp [glyphs, step, Glyph.plain]
    | _ => cases closed
  | cons c rest ih => simp [glyphs, step_lineBreak, ih closed]

/-- Hiding the contents of literals leaves the text as it is. -/
theorem text_glyphs (state : LiteralState) (code : List Char) :
    Glyph.text (state.glyphs code) = code := by
  -- Each glyph keeps its character, whether it is hidden or not.
  induction code generalizing state with
  | nil => rfl
  | cons c rest ih => simpa [Glyph.text, glyphs] using ih _

/-- Line breaks in front of code are passed over. -/
theorem glyphs_replicate (count : Nat) (more : List Char) :
    LiteralState.code.glyphs (List.replicate count '\n' ++ more) =
      List.replicate count (Glyph.plain '\n') ++ LiteralState.code.glyphs more := by
  -- In code a line break is seen as it is, and leaves the scan in code.
  induction count with
  | zero => rfl
  | succ count ih =>
    rw [List.replicate_succ, List.replicate_succ, List.cons_append, List.cons_append, ← ih]
    rfl

end LiteralState

/-! Both at once. -/

/-- The code of a source text, as searches see it. -/
def codeGlyphs (text : List Char) : List Glyph :=
  Glyph.ofCode (SourceLine.codeText (SourceLine.ofText text))

/-- Text behind which, on a new line, neither a comment nor a literal goes on. -/
structure IsClosed (text : List Char) : Prop where
  comments : (SourceState.code.after text).afterLineBreak = .code
  literals :
    (LiteralState.code.after (SourceLine.codeText (SourceLine.ofText text))).endsWithLine = true

/-- Whether text is closed is decided by scanning it. -/
instance (text : List Char) : Decidable (IsClosed text) :=
  decidable_of_iff ((SourceState.code.after text).afterLineBreak = .code ∧
      (LiteralState.code.after (SourceLine.codeText (SourceLine.ofText text))).endsWithLine = true)
    ⟨fun ⟨comments, literals⟩ => ⟨comments, literals⟩,
      fun ⟨comments, literals⟩ => ⟨comments, literals⟩⟩

/-- Code that stands behind other code, if there is any, begins on a new line or with a block. -/
def Glyph.IsBehind (code : List Glyph) : Prop :=
  ∀ glyph ∈ code.head?, glyph.shown = '\n' ∨ glyph.shown = '{'

namespace IsClosed

variable {text : List Char}

/-- The lines behind closed text are those of what stands there, further down. -/
theorem ofText_append (closed : IsClosed text) (more : List Char) :
    SourceLine.ofText (text ++ '\n' :: more) = SourceLine.ofText (text ++ ['\n']) ++
      (SourceLine.ofText more).map (SourceLine.below (text.count '\n' + 1)) := by
  have alone := SourceState.pieces_lineBreak .code text []
  have whole := SourceState.pieces_lineBreak .code text more
  -- No comment is open at the break, so the rest is read as a text of its own.
  rw [closed.comments] at alone whole
  rw [SourceLine.ofText, SourceLine.ofText, SourceLine.ofText, whole, alone,
    SourceLine.ofPieces_append, (SourcePiece.count_pieces .code text).1, Nat.add_assoc,
    SourceLine.ofPieces_below]
  rfl

/-- A comment on a line of text with a line break behind it is one of the text. -/
theorem comment_of_mem (closed : IsClosed text) {line : SourceLine}
    (member : line ∈ SourceLine.ofText (text ++ ['\n'])) :
    line ∈ SourceLine.ofText text ∨ line.comment = [] := by
  -- The text ends in code, so the break behind it adds an empty line at most.
  have pieces := SourceState.pieces_lineBreak .code text []
  rw [closed.comments] at pieces
  rw [SourceLine.ofText, pieces] at member
  exact SourceLine.comment_of_mem_lineBreak member

/-- The code behind closed text is that of what stands there, behind one or more line breaks. -/
theorem codeText_append (closed : IsClosed text) (more : List Char) :
    ∃ gap, SourceLine.codeText (SourceLine.ofText (text ++ '\n' :: more)) =
        SourceLine.codeText (SourceLine.ofText text) ++
          (List.replicate gap '\n' ++ SourceLine.codeText (SourceLine.ofText more)) ∧
      (gap = 0 → SourceLine.ofText more = []) ∧
      (SourceLine.ofText more ≠ [] →
        (SourceLine.codeText (SourceLine.ofText text)).count '\n' + gap = text.count '\n' + 1) := by
  have pieces := SourceState.pieces_lineBreak .code text []
  rw [closed.comments] at pieces
  have front : SourceLine.codeText (SourceLine.ofText (text ++ ['\n'])) =
      SourcePiece.codeOf (SourceState.code.pieces text) := by
    rw [SourceLine.ofText, pieces]
    exact SourceLine.codeText_lineBreak 1 [] [] _
  have filled : SourceLine.ofText (text ++ ['\n']) ≠ [] := by
    intro none
    rw [SourceLine.ofText, pieces] at none
    exact absurd (SourceLine.eq_nil_of_ofPieces none).2.2 (by simp)
  obtain ⟨gap, same⟩ := SourceLine.codeOf_eq 1 [] [] (SourceState.code.pieces text)
  have same : SourcePiece.codeOf (SourceState.code.pieces text) =
      SourceLine.codeText (SourceLine.ofText text) ++ List.replicate gap '\n' := same
  have count := (SourcePiece.count_pieces .code text).2
  rw [same, List.count_append, List.count_replicate_self] at count
  have whole : SourceLine.codeText (SourceLine.ofText (text ++ '\n' :: more)) =
      SourceLine.codeText (SourceLine.ofText text) ++ (List.replicate gap '\n' ++
        if SourceLine.ofText more = [] then [] else
          '\n' :: SourceLine.codeText (SourceLine.ofText more)) := by
    rw [closed.ofText_append, SourceLine.codeText_append filled, front, same]
    simp [SourceLine.codeText, SourceLine.below, Function.comp_def]
  rw [whole]
  by_cases none : SourceLine.ofText more = []
  · exact ⟨gap, by simp [none, SourceLine.codeText], fun _ => none,
      fun filled => absurd none filled⟩
  · -- One more line break ends the last line of the text.
    refine ⟨gap + 1, ?_, by simp, fun _ => by omega⟩
    simp [none, List.replicate_succ']

/-- What searches see behind closed text is what they see of what stands there. -/
theorem codeGlyphs_append (closed : IsClosed text) (more : List Char) :
    ∃ gap, codeGlyphs (text ++ '\n' :: more) =
        codeGlyphs text ++ (List.replicate gap (Glyph.plain '\n') ++ codeGlyphs more) ∧
      (gap = 0 → codeGlyphs more = []) ∧
      (SourceLine.ofText more ≠ [] →
        (Glyph.text (codeGlyphs text)).count '\n' + gap = text.count '\n' + 1) := by
  obtain ⟨gap, whole, apart, count⟩ := closed.codeText_append more
  -- Without a line break between them, there is no code behind.
  have nothing : gap = 0 → codeGlyphs more = [] := by
    intro none
    simp [codeGlyphs, apart none, SourceLine.codeText, Glyph.ofCode, LiteralState.glyphs]
  refine ⟨gap, ?_, nothing, ?_⟩
  · cases gap with
    | zero =>
      rw [codeGlyphs, whole, apart rfl, nothing rfl]
      simp [codeGlyphs, SourceLine.codeText]
    | succ gap =>
      rw [codeGlyphs, whole, List.replicate_succ, List.cons_append, Glyph.ofCode,
        LiteralState.glyphs_lineBreak closed.literals, LiteralState.glyphs_replicate]
      rfl
  · rw [codeGlyphs, Glyph.ofCode, LiteralState.text_glyphs]
    exact count

end IsClosed

/-- Line breaks with code behind them begin on a new line, and so does nothing. -/
theorem Glyph.isBehind_lineBreaks {gap : Nat} {code : List Glyph} (apart : gap = 0 → code = []) :
    IsBehind (List.replicate gap (plain '\n') ++ code) := by
  -- Either there is no line break and no code, or the first glyph is a line break.
  cases gap with
  | zero => simp [apart rfl, IsBehind]
  | succ gap => simp [List.replicate_succ, IsBehind, plain, shown]

end IndexAudit
