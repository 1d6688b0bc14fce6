import IndexAudit.Proofs.Code.Member

/-!
Blocks whose contents are exchanged.

Text is read by what stands in front of it and by the few characters behind it. A curly bracket is
none of the characters that a scan looks out for, so where one stands in code, the code in front of
it, inside the block and behind the block is read apart. What follows the block is found by its
brackets alone.
-/

namespace IndexAudit

/-- Whether a character is one of the brackets around a block. -/
def IsBrace (c : Char) : Prop :=
  c = '{' ∨ c = '}'

/-! Comments. -/

namespace SourceState

/-- The pieces of a text that more text stands behind, and where they leave the scan. -/
def scan (more : List Char) (state : SourceState) : List Char → List SourcePiece × SourceState
  | [] => ([], state)
  | c :: rest =>
    if c = '\n' then
      let later := scan more state.afterLineBreak rest
      (.lineBreak :: later.1, later.2)
    else if c = '\r' ∧ ¬ state.protects then scan more state rest
    else
      -- A step looks ahead, which is why what comes later is handed along.
      let taken := state.step c (rest ++ more)
      let later := scan more taken.2 rest
      (taken.1 ++ later.1, later.2)

/-- The pieces of a text are followed by those of the text behind it. -/
theorem pieces_append (state : SourceState) (text more : List Char) :
    state.pieces (text ++ more) =
      (state.scan more text).1 ++ (state.scan more text).2.pieces more := by
  induction text generalizing state with
  | nil => rfl
  | cons c rest ih =>
    -- The state goes from character to character in both, with the rest of the text behind it.
    rw [List.cons_append, pieces, scan]
    split
    · rw [ih]
      rfl
    split
    · exact ih state
    · dsimp only
      rw [ih, List.append_assoc]

/-- A scan does not look beyond a curly bracket. -/
theorem step_brace (state : SourceState) (c : Char) {brace : Char} (isBrace : IsBrace brace)
    (rest more : List Char) :
    state.step c (rest ++ brace :: more) = state.step c (rest ++ [brace]) := by
  -- No more than three characters are looked at, and a bracket is none of those looked for.
  rcases isBrace with rfl | rfl
  all_goals
    match rest with
    | [] => cases state <;> simp [step]
    | [first] => cases state <;> simp [step]
    | [first, second] => cases state <;> simp [step]
    | first :: second :: third :: rest => cases state <;> simp [step]

/-- Text in front of a curly bracket is read in the same way whatever stands behind that. -/
theorem scan_brace (state : SourceState) (text : List Char) {brace : Char}
    (isBrace : IsBrace brace) (more : List Char) :
    state.scan (brace :: more) text = state.scan [brace] text := by
  -- No step of the scan looks past a curly bracket, and the induction takes them one by one.
  induction text generalizing state with
  | nil => rfl
  | cons c rest ih => simp only [scan, step_brace state c isBrace, ih]

/-- A curly bracket in code is code. -/
theorem pieces_brace {brace : Char} (isBrace : IsBrace brace) (more : List Char) :
    SourceState.code.pieces (brace :: more) = .code brace :: SourceState.code.pieces more := by
  rcases isBrace with rfl | rfl <;> simp [pieces, step]

end SourceState

namespace SourcePiece

/-- The code that pieces hold on their lines, of which the last one is left out if it is empty. -/
def lineCode : List SourcePiece → List Char
  | [] => []
  | .code c :: rest => c :: lineCode rest
  | .comment _ :: rest => lineCode rest
  | .lineBreak :: rest => if rest.isEmpty then [] else '\n' :: lineCode rest

/-- In front of more pieces, each line break counts. -/
theorem lineCode_append (front : List SourcePiece) {back : List SourcePiece} (filled : back ≠ []) :
    lineCode (front ++ back) = codeOf front ++ lineCode back := by
  -- Only a line break at the very end is left out, and behind the front there is more.
  induction front with
  | nil => rfl
  | cons piece rest ih => cases piece <;> simp [lineCode, codeOf, ih, filled]

end SourcePiece

/-- The code of lines is that of their pieces. -/
theorem SourceLine.codeText_lineCode (number : Nat) (code comment : List Char)
    (pieces : List SourcePiece) :
    codeText (ofPieces number code comment pieces) = code ++ SourcePiece.lineCode pieces := by
  induction pieces generalizing number code comment with
  | nil =>
    rw [ofPieces]
    split
    · rename_i empty
      have noCode : code = [] := by simpa using (Bool.and_eq_true_iff.mp empty).1
      simp [noCode, codeText, SourcePiece.lineCode]
    · simp [codeText, SourcePiece.lineCode]
  | cons piece rest ih =>
    cases piece with
    | code c => simp [ofPieces, ih, SourcePiece.lineCode]
    | comment c => simp [ofPieces, ih, SourcePiece.lineCode]
    | lineBreak =>
      have split := codeText_cons ⟨number, code, comment⟩ (ofPieces (number + 1) [] [] rest)
      -- Behind the line break there is a line unless there is nothing at all.
      by_cases last : rest = []
      · simp [last, ofPieces, codeText, SourcePiece.lineCode]
      · have more : ofPieces (number + 1) [] [] rest ≠ [] := fun none =>
          last (eq_nil_of_ofPieces none).2.2
        rw [ofPieces, split, if_neg more, ih]
        simp [SourcePiece.lineCode, last]

/-! Literals. -/

namespace LiteralState

/-- What searches see of code that more code stands behind, and where it leaves the scan. -/
def scan (more : List Char) (state : LiteralState) : List Char → List Glyph × LiteralState
  | [] => ([], state)
  | c :: rest =>
    let taken := state.step c (rest ++ more)
    let later := scan more taken.2 rest
    (⟨c, taken.1⟩ :: later.1, later.2)

/-- What is seen of code is followed by what is seen of the code behind it. -/
theorem glyphs_append (state : LiteralState) (code more : List Char) :
    state.glyphs (code ++ more) =
      (state.scan more code).1 ++ (state.scan more code).2.glyphs more := by
  -- The state goes from character to character in both, with the rest of the code behind it.
  induction code generalizing state with
  | nil => rfl
  | cons c rest ih =>
    rw [List.cons_append, glyphs, scan]
    dsimp only
    rw [ih, List.cons_append]

/-- A scan does not look beyond a curly bracket. -/
theorem step_brace (state : LiteralState) (c : Char) {brace : Char} (isBrace : IsBrace brace)
    (rest more : List Char) :
    state.step c (rest ++ brace :: more) = state.step c (rest ++ [brace]) := by
  rcases isBrace with rfl | rfl
  all_goals
    -- No step looks further ahead than three characters.
    match rest with
    | [] => cases state <;> simp [step]
    | [first] => cases state <;> simp [step]
    | [first, second] => cases state <;> simp [step]
    | first :: second :: third :: rest => cases state <;> simp [step]

/-- Code in front of a curly bracket is read in the same way whatever stands behind that. -/
theorem scan_brace (state : LiteralState) (code : List Char) {brace : Char}
    (isBrace : IsBrace brace) (more : List Char) :
    state.scan (brace :: more) code = state.scan [brace] code := by
  -- No step of the scan looks past a curly bracket, and the induction takes them one by one.
  induction code generalizing state with
  | nil => rfl
  | cons c rest ih => simp only [scan, step_brace state c isBrace, ih]

/-- A curly bracket in code is seen. -/
theorem glyphs_brace {brace : Char} (isBrace : IsBrace brace) (more : List Char) :
    LiteralState.code.glyphs (brace :: more) =
      Glyph.plain brace :: LiteralState.code.glyphs more := by
  rcases isBrace with rfl | rfl <;> simp [glyphs, step, Glyph.plain]

end LiteralState

/-! Both at once. -/

/-- The code of a text in front of a character, comments left out. -/
def codeBefore (mark : Char) (text : List Char) : List Char :=
  SourcePiece.codeOf (SourceState.code.scan [mark] text).1

/-- The code of a text in front of a character, as searches see it. -/
def glyphsBefore (mark : Char) (text : List Char) : List Glyph :=
  (LiteralState.code.scan [mark] (codeBefore mark text)).1

/-- Text behind which a character stands in code, outside of comments and literals. -/
structure IsCodeBefore (mark : Char) (text : List Char) : Prop where
  comments : (SourceState.code.scan [mark] text).2 = .code
  literals : (LiteralState.code.scan [mark] (codeBefore mark text)).2 = .code

/-- Whether a character stands in code is decided by scanning the text in front of it. -/
instance (mark : Char) (text : List Char) : Decidable (IsCodeBefore mark text) :=
  decidable_of_iff ((SourceState.code.scan [mark] text).2 = .code ∧
      (LiteralState.code.scan [mark] (codeBefore mark text)).2 = .code)
    ⟨fun ⟨comments, literals⟩ => ⟨comments, literals⟩,
      fun ⟨comments, literals⟩ => ⟨comments, literals⟩⟩

namespace IsCodeBefore

variable {brace : Char} {text : List Char}

/-- The pieces of a text are those in front of a curly bracket in code, and those behind it. -/
theorem pieces_eq (here : IsCodeBefore brace text) (isBrace : IsBrace brace) (more : List Char) :
    SourceState.code.pieces (text ++ brace :: more) =
      (SourceState.code.scan [brace] text).1 ++ .code brace :: SourceState.code.pieces more := by
  -- In front of the bracket nothing changes, and in code it is a piece of code itself.
  rw [SourceState.pieces_append, SourceState.scan_brace _ _ isBrace, here.comments,
    SourceState.pieces_brace isBrace]

/-- What searches see of code is what they see in front of a curly bracket, and behind it. -/
theorem glyphs_eq (here : IsCodeBefore brace text) (isBrace : IsBrace brace) (more : List Char) :
    LiteralState.code.glyphs (codeBefore brace text ++ brace :: more) =
      glyphsBefore brace text ++ Glyph.plain brace :: LiteralState.code.glyphs more := by
  -- In front of the bracket nothing changes, and in code it is seen as it is.
  rw [LiteralState.glyphs_append, LiteralState.scan_brace _ _ isBrace, here.literals,
    LiteralState.glyphs_brace isBrace, glyphsBefore]

/-- The code in front of a curly bracket has as many line breaks as the text. -/
theorem count_codeBefore (here : IsCodeBefore brace text) (isBrace : IsBrace brace) :
    (codeBefore brace text).count '\n' = text.count '\n' := by
  -- Pieces have the line breaks of their text, and a bracket is none.
  have whole := (SourcePiece.count_pieces .code (text ++ [brace])).2
  rw [here.pieces_eq isBrace] at whole
  rcases isBrace with rfl | rfl <;>
    simpa [SourcePiece.codeOf, SourceState.pieces, codeBefore] using whole

/-- The code in front of a curly bracket, as searches see it, has as many line breaks, too. -/
theorem lineBreaks_glyphsBefore (here : IsCodeBefore brace text) (isBrace : IsBrace brace) :
    Segment.lineBreaks (glyphsBefore brace text) = text.count '\n' := by
  -- What is seen stands for each character of the code, and a bracket is no line break.
  have whole := LiteralState.text_glyphs .code (codeBefore brace text ++ [brace])
  rw [here.glyphs_eq isBrace] at whole
  have same : Glyph.text (glyphsBefore brace text) = codeBefore brace text := by
    simpa [Glyph.text, LiteralState.glyphs, Glyph.plain] using whole
  rw [Segment.lineBreaks, same, here.count_codeBefore isBrace]

end IsCodeBefore

/-- A text with a block in it. -/
def blockText (front content back : List Char) : List Char :=
  front ++ '{' :: (content ++ '}' :: back)

/-- What searches see behind a block. -/
def glyphsBehind (back : List Char) : List Glyph :=
  LiteralState.code.glyphs (SourcePiece.lineCode (SourceState.code.pieces back))

/-- Code with a block in it. -/
def blockCode (front content back : List Glyph) : List Glyph :=
  front ++ Glyph.plain '{' :: (content ++ Glyph.plain '}' :: back)

/-- What searches see of a text is told apart by the brackets around a block in it. -/
theorem codeGlyphs_block {front content : List Char} (opens : IsCodeBefore '{' front)
    (closes : IsCodeBefore '}' content) (back : List Char) :
    codeGlyphs (blockText front content back) =
      blockCode (glyphsBefore '{' front) (glyphsBefore '}' content) (glyphsBehind back) := by
  have code : SourceLine.codeText (SourceLine.ofText (blockText front content back)) =
      codeBefore '{' front ++ '{' :: (codeBefore '}' content ++
        '}' :: SourcePiece.lineCode (SourceState.code.pieces back)) := by
    rw [SourceLine.ofText, SourceLine.codeText_lineCode, blockText, opens.pieces_eq (.inl rfl),
      closes.pieces_eq (.inr rfl), SourcePiece.lineCode_append _ (by simp), List.nil_append,
      SourcePiece.lineCode, SourcePiece.lineCode_append _ (by simp), SourcePiece.lineCode]
    rfl
  -- The code is known by its three parts, and each is seen up to its bracket.
  rw [codeGlyphs, Glyph.ofCode, code, opens.glyphs_eq (.inl rfl), closes.glyphs_eq (.inr rfl)]
  rfl

/-! Brackets. -/

/-- Where brackets are left open, the search for the one that closes them goes on behind. -/
theorem Nest.closeIndex_open {α : Type} {nest : α → Nest} {depth : Nat} {front : List α}
    (stays : closeIndex nest (depth + 1) front = none) :
    ∃ left, ∀ outer back, closeIndex nest (depth + outer + 1) (front ++ back) =
      (closeIndex nest (left + outer + 1) back).map (· + front.length) := by
  induction front generalizing depth with
  | nil => exact ⟨depth, by simp⟩
  | cons x rest ih =>
    have further (found : Option Nat) : (found.map (· + rest.length)).map (· + 1) =
        found.map (· + (x :: rest).length) := by
      rw [Option.map_map]
      rfl
    rw [closeIndex.eq_def] at stays
    -- What the first element does to the nesting it does inside of others, too.
    cases bracket : nest x with
    | opens =>
      simp only [bracket, Option.map_eq_none_iff] at stays
      obtain ⟨left, found⟩ := ih stays
      refine ⟨left, fun outer back => ?_⟩
      have later := found outer back
      rw [Nat.add_right_comm depth 1 outer] at later
      rw [List.cons_append, closeIndex.eq_def]
      simp only [bracket, later, further]
    | level =>
      simp only [bracket, Option.map_eq_none_iff] at stays
      obtain ⟨left, found⟩ := ih stays
      refine ⟨left, fun outer back => ?_⟩
      rw [List.cons_append, closeIndex.eq_def]
      simp only [bracket, found, further]
    | closes =>
      cases depth with
      | zero => simp [bracket] at stays
      | succ depth =>
        simp only [bracket, Option.map_eq_none_iff] at stays
        obtain ⟨left, found⟩ := ih stays
        refine ⟨left, fun outer back => ?_⟩
        rw [Nat.add_right_comm depth 1 outer, List.cons_append, closeIndex.eq_def]
        simp only [bracket, found, further]

namespace Glyph

/-- Code between two curly brackets of which the first is closed by the second. -/
def FillsBlock (content : List Glyph) : Prop :=
  closeIndex (plain '{' :: (content ++ [plain '}'])) = some (content.length + 1)

instance (content : List Glyph) : Decidable (FillsBlock content) :=
  inferInstanceAs (Decidable (_ = _))

namespace FillsBlock

variable {content : List Glyph} (fills : FillsBlock content)
include fills

/-- A block ends with the bracket that closes it. -/
theorem closeIndex_block (back : List Glyph) :
    Glyph.closeIndex (plain '{' :: (content ++ plain '}' :: back)) =
      some (content.length + 1) := by
  -- Once the bracket is found, what stands behind it is not looked at.
  have closed := Nest.closeIndex_append fills back
  simpa [Glyph.closeIndex] using closed

/-- What stands behind a block is what follows it. -/
theorem afterBlock_eq (back : List Glyph) :
    Segment.afterBlock (plain '{' :: (content ++ plain '}' :: back)) = back := by
  rw [Segment.afterBlock, fills.closeIndex_block]
  simp

/-- No bracket inside a block closes one that is open around it. -/
theorem closeIndex_around (depth : Nat) (back : List Glyph) :
    Nest.closeIndex (fun glyph => bracketOf glyph.shown) (depth + 1)
        (plain '{' :: (content ++ plain '}' :: back)) =
      (Nest.closeIndex (fun glyph => bracketOf glyph.shown) (depth + 1) back).map
        (· + (content.length + 2)) := by
  have opening : bracketOf (plain '{').shown = .opens := rfl
  have closing : bracketOf (plain '}').shown = .closes := rfl
  have inside : Nest.closeIndex (fun glyph => bracketOf glyph.shown) 1
      (content ++ [plain '}']) = some content.length := by
    simpa [FillsBlock, Glyph.closeIndex, Nest.closeIndex, opening] using fills
  -- The closing bracket is the first one that closes the block.
  have stays : Nest.closeIndex (fun glyph => bracketOf glyph.shown) (0 + 1) content = none := by
    by_contra closed
    obtain ⟨position, closed⟩ := Option.ne_none_iff_exists'.mp closed
    rw [Nest.closeIndex_append closed] at inside
    exact absurd (Nest.closeIndex_lt closed) (by simp [Option.some.inj inside])
  obtain ⟨left, further⟩ := Nest.closeIndex_open stays
  have level : left = 0 := by
    have last := further 0 [plain '}']
    rw [Nat.zero_add, inside] at last
    cases left with
    | zero => rfl
    | succ left => simp [Nest.closeIndex, closing] at last
  have whole := further (depth + 1) (plain '}' :: back)
  simp only [level, Nat.zero_add] at whole
  simp only [Nest.closeIndex, opening, whole, closing, Option.map_map]
  congr 1
  funext position
  simp only [Function.comp_apply]
  omega

end FillsBlock

end Glyph

/-- Text that a block may hold: it leaves neither a comment nor a literal nor a bracket open. -/
structure IsBlockContent (content : List Char) : Prop extends IsCodeBefore '}' content where
  fills : Glyph.FillsBlock (glyphsBefore '}' content)

/-- Whether a block may hold a text is decided by scanning the text and counting its brackets. -/
instance (content : List Char) : Decidable (IsBlockContent content) :=
  decidable_of_iff (IsCodeBefore '}' content ∧ Glyph.FillsBlock (glyphsBefore '}' content))
    ⟨fun ⟨before, fills⟩ => ⟨before, fills⟩, fun content => ⟨content.toIsCodeBefore, content.fills⟩⟩

/-! Bodies. -/

namespace Segment

/-- What is left of code behind a block is shorter than the code with the block in front. -/
theorem length_drop_lt (close : Nat) (rest : List Glyph) :
    (rest.drop close).length < rest.length + 1 := by
  rw [List.length_drop]
  omega

/-- Whether the end of code is outside the brackets and the blocks of a body that begins with it. -/
def endsOutside (depth : Nat) (code : List Glyph) : Bool :=
  match code with
  | [] => depth == 0
  | glyph :: rest =>
    -- A block at the top level is jumped over, and must end within the code.
    if depth = 0 ∧ glyph.shown = '{' then
      match Glyph.closeIndex (glyph :: rest) with
      | none => false
      | some close =>
        have := length_drop_lt close rest
        endsOutside 0 (rest.drop close)
    else endsOutside (depthAfter depth glyph.shown) rest
termination_by code.length

/-- Code that a body begins with, and that ends at the top level of that body. -/
structure IsTopLevel (code : List Glyph) : Prop where
  /-- The body goes on behind the code. -/
  stays : Glyph.closeIndex (Glyph.plain '{' :: code) = none
  outside : endsOutside 0 code = true

instance (code : List Glyph) : Decidable (IsTopLevel code) :=
  decidable_of_iff (Glyph.closeIndex (Glyph.plain '{' :: code) = none ∧ endsOutside 0 code = true)
    ⟨fun ⟨stays, outside⟩ => ⟨stays, outside⟩, fun ⟨stays, outside⟩ => ⟨stays, outside⟩⟩

/-- A member ends in front of a block at the top level, and the next one begins behind it. -/
theorem collect_toBlock (runsOn : List Char → Bool) (start : Nat) {depth : Nat}
    (current : List Glyph) {code : List Glyph} (outside : endsOutside depth code = true) :
    ∃ members last line, ∀ back, collect runsOn start depth current
        (code ++ Glyph.plain '{' :: back) =
      members ++ ⟨last, line, true⟩ :: collect runsOn (line + lineBreaks last +
        (lineBreaks (Glyph.plain '{' :: back) - lineBreaks (afterBlock (Glyph.plain '{' :: back))))
        0 [] (afterBlock (Glyph.plain '{' :: back)) := by
  match code with
  | [] =>
    obtain rfl : depth = 0 := by simpa [endsOutside] using outside
    exact ⟨[], current.reverse, start, fun back => collect_block rfl⟩
  | glyph :: code =>
    rw [endsOutside] at outside
    by_cases block : depth = 0 ∧ glyph.shown = '{'
    · obtain ⟨rfl, opens⟩ := block
      rw [if_pos ⟨rfl, opens⟩] at outside
      split at outside
      · cases outside
      rename_i close closed
      have within := Nest.closeIndex_lt closed
      have shorter := length_drop_lt close code
      -- A block in front is closed there, so it is the same whatever stands behind.
      have passed (back : List Glyph) : afterBlock (glyph :: (code ++ back)) =
          code.drop close ++ back := by
        rw [afterBlock, Glyph.closeIndex, ← List.cons_append, Nest.closeIndex_append closed]
        exact List.drop_append_of_le_length within
      have lines (back : List Glyph) : lineBreaks (glyph :: (code ++ back)) -
          lineBreaks (code.drop close ++ back) =
          lineBreaks (glyph :: code) - lineBreaks (code.drop close) := by
        rw [← List.cons_append, lineBreaks_append, lineBreaks_append, Nat.add_sub_add_right]
      obtain ⟨members, last, line, cut⟩ := collect_toBlock runsOn (start +
        lineBreaks current.reverse + (lineBreaks (glyph :: code) - lineBreaks (code.drop close)))
        [] outside
      refine ⟨⟨current.reverse, start, true⟩ :: members, last, line, fun back => ?_⟩
      rw [List.cons_append, collect_block opens, passed, lines, cut]
      rfl
    · rw [if_neg block] at outside
      by_cases ended : depth = 0 ∧ (glyph.shown = ';' ∨
          glyph.shown = '\n' ∧ ¬ runsOn (Glyph.shownText current.reverse))
      · obtain ⟨rfl, stops⟩ := ended
        have level : depthAfter 0 glyph.shown = 0 := by
          rcases stops with stop | ⟨stop, -⟩ <;> rw [stop] <;> rfl
        rw [level] at outside
        obtain ⟨members, last, line, cut⟩ := collect_toBlock runsOn
          (start + lineBreaks current.reverse + if glyph.shown = '\n' then 1 else 0) [] outside
        refine ⟨⟨current.reverse, start, false⟩ :: members, last, line, fun back => ?_⟩
        rw [List.cons_append, collect_stop stops, cut]
        rfl
      · obtain ⟨members, last, line, cut⟩ :=
          collect_toBlock runsOn start (glyph :: current) outside
        refine ⟨members, last, line, fun back => ?_⟩
        rw [List.cons_append, collect, if_neg block, if_neg ended, cut]
termination_by code.length

namespace IsTopLevel

variable {inner : List Glyph} (top : IsTopLevel inner)
include top

/-- A body ends where it does, whatever stands in a block at its top level. -/
theorem exists_close (back : List Glyph) :
    ∃ close : Option Nat, ∀ {content : List Glyph}, Glyph.FillsBlock content →
      Glyph.closeIndex (Glyph.plain '{' :: blockCode inner content back) =
        close.map (· + (inner.length + content.length + 3)) := by
  have opening : Glyph.bracketOf (Glyph.plain '{').shown = .opens := rfl
  -- The body is open up to the block, and what is left open closes behind it.
  have stays : Nest.closeIndex (fun glyph => Glyph.bracketOf glyph.shown) (0 + 1) inner = none := by
    simpa [Glyph.closeIndex, Nest.closeIndex, opening] using top.stays
  obtain ⟨left, further⟩ := Nest.closeIndex_open stays
  refine ⟨Nest.closeIndex (fun glyph => Glyph.bracketOf glyph.shown) (left + 1) back,
    fun {content} fills => ?_⟩
  have whole := further 0 (Glyph.plain '{' :: (content ++ Glyph.plain '}' :: back))
  simp only [Nat.add_zero, Nat.zero_add, fills.closeIndex_around, Option.map_map] at whole
  rw [blockCode, Glyph.closeIndex, Nest.closeIndex.eq_def]
  simp only [opening, Nat.zero_add, whole, Option.map_map]
  congr 1
  funext position
  simp only [Function.comp_apply]
  omega

/-- A body is the same but for what stands in a block at its top level. -/
theorem exists_body (back : List Glyph) :
    ∃ stop : Option Nat, ∀ {content : List Glyph}, Glyph.FillsBlock content →
      (Glyph.closeIndex (Glyph.plain '{' :: blockCode inner content back)).map (fun close =>
          (blockCode inner content back).take (close - 1)) =
        stop.map fun stop => blockCode inner content (back.take stop) := by
  obtain ⟨close, closed⟩ := top.exists_close back
  refine ⟨close, fun {content} fills => ?_⟩
  rw [closed fills, Option.map_map]
  refine Option.map_congr fun close _ => ?_
  -- The content of the block shifts the end of the body by its length.
  have position : close + (inner.length + content.length + 3) - 1 =
      inner.length + (content.length + (close + 1) + 1) := by
    omega
  simp only [Function.comp_apply, position, blockCode, List.take_length_add_append,
    List.take_succ_cons]

/-- The members of a body are the same whatever stands in a block, but for their lines. -/
theorem exists_collect (runsOn : List Char → Bool) (start : Nat) :
    ∃ members line, ∀ {content : List Glyph} (back : List Glyph), Glyph.FillsBlock content →
      collect runsOn start 0 [] (blockCode inner content back) =
        members ++ collect runsOn (line + lineBreaks content) 0 [] back := by
  obtain ⟨members, last, line, cut⟩ := collect_toBlock runsOn start [] top.outside
  refine ⟨members ++ [⟨last, line, true⟩], line + lineBreaks last, fun {content} back fills => ?_⟩
  -- The breaks inside the block are all that the following lines depend on.
  have lines : lineBreaks (Glyph.plain '{' :: (content ++ Glyph.plain '}' :: back)) -
      lineBreaks back = lineBreaks content := by
    have brace (c : Char) (rest : List Glyph) (apart : c ≠ '\n') :
        lineBreaks (Glyph.plain c :: rest) = lineBreaks rest := by
      simp [lineBreaks, Glyph.text, Glyph.plain, apart]
    rw [brace _ _ (by decide), lineBreaks_append, brace _ _ (by decide), Nat.add_sub_cancel]
  rw [blockCode, cut, fills.afterBlock_eq, lines, List.append_assoc]
  rfl

end IsTopLevel

end Segment

end IndexAudit
