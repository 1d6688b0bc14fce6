import IndexAudit.Code.Line
import IndexAudit.Code.Literal
import Mathlib.Tactic.SplitIfs

/-!
Code without comments is read as it is written.

Such code consists of literals, closed as they are opened, and of other characters. Only the
contents of the literals are hidden from searches.
-/

namespace IndexAudit

/-- What stands between the quotes of a literal on one line. -/
inductive LiteralBody (quote : Char) : List Char → Prop
  | nil : LiteralBody quote []
  | char {c : Char} {rest : List Char} (unquoted : c ≠ quote) (unescaped : c ≠ '\\')
      (inLine : c ≠ '\n' ∧ c ≠ '\r') (later : LiteralBody quote rest) :
      LiteralBody quote (c :: rest)
  | escape {c : Char} {rest : List Char} (inLine : c ≠ '\n') (later : LiteralBody quote rest) :
      LiteralBody quote ('\\' :: c :: rest)

namespace Glyph

/-- A character inside a literal; a line break in a raw string is not hidden. -/
def inside (c : Char) : Glyph := ⟨c, c ≠ '\n'⟩

/-- Code without comments in front of the rest of a text, and how it is read. -/
inductive Spells : List Glyph → List Char → List Char → Prop
  | done {rest : List Char} : Spells [] [] rest
  | plain {c : Char} {glyphs : List Glyph} {text rest : List Char} (unquoted : c ≠ '"' ∧ c ≠ '\'')
      (noReturn : c ≠ '\r') (noComment : c = '/' → ∀ d ∈ (text ++ rest).head?, d ≠ '/' ∧ d ≠ '*')
      (later : Spells glyphs text rest) : Spells (plain c :: glyphs) (c :: text) rest
  | literal {quote : Char} {body text rest : List Char} {glyphs : List Glyph}
      (isQuote : quote = '"' ∨ quote = '\'') (closed : LiteralBody quote body)
      (apart : ∀ d ∈ (text ++ rest).head?, d ≠ '"') (later : Spells glyphs text rest) :
      Spells (plain quote :: (body.map inside ++ plain quote :: glyphs))
        (quote :: (body ++ quote :: text)) rest
  | raw {body text rest : List Char} {glyphs : List Glyph} (closed : ¬ ['"', '"', '"'] <:+: body)
      (noReturn : '\r' ∉ body) (apart : ∀ d ∈ (text ++ rest).head?, d ≠ '"')
      (later : Spells glyphs text rest) :
      Spells (plain '"' :: plain '"' :: plain '"' :: (body.map inside ++
          plain '"' :: plain '"' :: plain '"' :: glyphs))
        ('"' :: '"' :: '"' :: (body ++ '"' :: '"' :: '"' :: text)) rest

/-- Code in front of other code is spelled with it. -/
theorem Spells.append {front back : List Glyph} {first second rest : List Char}
    (before : Spells front first (second ++ rest)) (behind : Spells back second rest) :
    Spells (front ++ back) (first ++ second) rest := by
  -- What follows the first spelling is the second one, so it may not vary in the induction.
  generalize whole : second ++ rest = following at before
  induction before with
  | done => exact behind
  | plain unquoted noReturn noComment _ ih =>
    subst whole
    exact .plain unquoted noReturn (by simpa using noComment) (ih rfl)
  | literal isQuote closed apart _ ih =>
    subst whole
    simpa using Spells.literal isQuote closed (by simpa using apart) (ih rfl)
  | raw closed noReturn apart _ ih =>
    subst whole
    simpa using Spells.raw closed noReturn (by simpa using apart) (ih rfl)

/-- Code is spelled the same where what comes behind it joins it to no comment and no string. -/
theorem Spells.congr {glyphs : List Glyph} {text rest other : List Char}
    (spelled : Spells glyphs text rest)
    (same : ∀ c ∈ other.head?, c ∈ rest.head? ∨ c ≠ '"' ∧ c ≠ '/' ∧ c ≠ '*') :
    Spells glyphs text other := by
  -- Only the first character of what follows is ever looked at, and only behind no text.
  have behind {text : List Char} : ∀ c ∈ (text ++ other).head?,
      c ∈ (text ++ rest).head? ∨ c ≠ '"' ∧ c ≠ '/' ∧ c ≠ '*' := by
    cases text with
    | nil => exact same
    | cons c text => exact fun d first => .inl first
  induction spelled with
  | done => exact .done
  | plain unquoted noReturn noComment _ ih =>
    exact .plain unquoted noReturn
      (fun slash d first => (behind d first).elim (noComment slash d) (·.2)) (ih same behind)
  | literal isQuote closed apart _ ih =>
    exact .literal isQuote closed (fun d first => (behind d first).elim (apart d) (·.1))
      (ih same behind)
  | raw closed noReturn apart _ ih =>
    exact .raw closed noReturn (fun d first => (behind d first).elim (apart d) (·.1))
      (ih same behind)

/-- The text of code is what spells it. -/
theorem Spells.text_eq {glyphs : List Glyph} {text rest : List Char}
    (spelled : Spells glyphs text rest) : Glyph.text glyphs = text := by
  have body (chars : List Char) : Glyph.text (chars.map inside) = chars := by
    simp [Glyph.text, inside, Function.comp_def]
  -- Each way to spell a glyph keeps its character, in literals as outside of them.
  induction spelled with
  | done => rfl
  | plain _ _ _ _ ih => simpa [Glyph.text, Glyph.plain] using ih
  | literal _ _ _ _ ih =>
    simp only [Glyph.text, List.map_cons, List.map_append, Glyph.plain] at body ih ⊢
    rw [body, ih]
  | raw _ _ _ _ ih =>
    simp only [Glyph.text, List.map_cons, List.map_append, Glyph.plain] at body ih ⊢
    rw [body, ih]

/-- What a search sees of code is a character of what spells it, or a space. -/
theorem Spells.mem_of_shown {glyphs : List Glyph} {text rest : List Char}
    (spelled : Spells glyphs text rest) {glyph : Glyph} (member : glyph ∈ glyphs) {c : Char}
    (shown : glyph.shown = c) (visible : c ≠ ' ') : c ∈ text := by
  -- The glyphs have the characters of the text, and what is no space is seen as it is.
  rw [← spelled.text_eq]
  exact List.mem_map.mpr ⟨glyph, member, char_of_shown shown visible⟩

/-- Characters that begin no literal and no comment are spelled as they are. -/
theorem spells_plain (text : List Char) {rest : List Char}
    (plain : ∀ c ∈ text, c ≠ '"' ∧ c ≠ '\'' ∧ c ≠ '\r' ∧ c ≠ '/') :
    Spells (text.map Glyph.plain) text rest := by
  -- Each character is spelled by itself, as nothing behind it changes its meaning.
  induction text with
  | nil => exact .done
  | cons c text ih =>
    obtain ⟨⟨noString, noCharacter, noReturn, noSlash⟩, later⟩ := List.forall_mem_cons.mp plain
    exact .plain ⟨noString, noCharacter⟩ noReturn (fun slash => absurd slash noSlash) (ih later)

end Glyph

/-! The contents of literals are passed over. -/

section Literals

variable {quote : Char} {body rest : List Char}

/-- A quote does not begin a raw string unless two more come behind it. -/
theorem take_two_ne (closed : LiteralBody '"' body) (apart : ∀ d ∈ rest.head?, d ≠ '"') :
    (body ++ '"' :: rest).take 2 ≠ ['"', '"'] := by
  -- The contents do not begin with a quote, and behind empty ones there comes no third.
  cases closed with
  | nil =>
    cases rest with
    | nil => simp
    | cons d rest => simpa using apart d rfl
  | char unquoted => simp [unquoted]
  | escape => simp

/-- No quote in a raw string closes it as long as three of them come behind. -/
theorem raw_goesOn {c : Char} (closed : ¬ ['"', '"', '"'] <:+: c :: body) (rest : List Char) :
    ¬ (c = '"' ∧ (body ++ '"' :: '"' :: '"' :: rest).take 2 = ['"', '"'] ∧
      (body ++ '"' :: '"' :: '"' :: rest).take 3 ≠ ['"', '"', '"']) := by
  rintro ⟨rfl, two, three⟩
  -- The quotes that close the string come last in a run of quotes.
  match body with
  | [] => exact three rfl
  | [d] =>
    obtain rfl : d = '"' := by simpa using two
    exact three rfl
  | d :: e :: more =>
    obtain ⟨rfl, rfl⟩ : d = '"' ∧ e = '"' := by simpa using two
    exact closed (List.IsPrefix.isInfix (by simp))

/-- Three quotes close a raw string where no more of them come behind. -/
theorem raw_ends (apart : ∀ d ∈ rest.head?, d ≠ '"') :
    ('"' :: '"' :: rest).take 2 = ['"', '"'] ∧
      ('"' :: '"' :: rest).take 3 ≠ ['"', '"', '"'] := by
  -- The character behind the three quotes is another one, if there is any.
  cases rest with
  | nil => simp
  | cons d rest => simpa using apart d rfl

/-- The state of the scan for comments inside a literal. -/
def SourceState.inLiteral (quote : Char) : SourceState :=
  if quote = '"' then .string else .character

/-- The state of the scan for literals inside a literal. -/
def LiteralState.inLiteral (quote : Char) : LiteralState :=
  if quote = '"' then .string else .character

/-- What a character of code contributes to its line. -/
def SourcePiece.ofChar (c : Char) : SourcePiece :=
  if c = '\n' then .lineBreak else .code c

namespace SourceState

/-- The contents of a literal are code, and so is the quote behind them. -/
theorem pieces_inLiteral (isQuote : quote = '"' ∨ quote = '\'') (closed : LiteralBody quote body)
    (rest : List Char) :
    (inLiteral quote).pieces (body ++ quote :: rest) =
      (body ++ [quote]).map SourcePiece.ofChar ++ code.pieces rest := by
  -- By induction on the contents: no character of them ends the literal, and the quote behind them
  -- does.
  induction closed with
  | nil => rcases isQuote with rfl | rfl <;> simp [inLiteral, pieces, step, SourcePiece.ofChar]
  | @char c more unquoted unescaped inLine _ ih =>
    rcases isQuote with rfl | rfl <;>
      simp_all [inLiteral, pieces, step, SourcePiece.ofChar]
  | @escape c more inLine _ ih =>
    rcases isQuote with rfl | rfl <;>
      simp_all [inLiteral, pieces, step, SourcePiece.ofChar, protects]

/-- The contents of a raw string are code, and so are the quotes behind them. -/
theorem pieces_rawString (closed : ¬ ['"', '"', '"'] <:+: body) (noReturn : '\r' ∉ body)
    (apart : ∀ d ∈ rest.head?, d ≠ '"') :
    rawString.pieces (body ++ '"' :: '"' :: '"' :: rest) =
      (body ++ ['"', '"', '"']).map SourcePiece.ofChar ++ code.pieces rest := by
  induction body with
  | nil =>
    rw [List.nil_append, pieces, if_neg (by decide), if_neg (by simp), step,
      if_pos ⟨rfl, raw_ends apart⟩]
    simp [pieces, step, SourcePiece.ofChar]
  | cons c body ih =>
    obtain ⟨apartReturn, noReturn⟩ := List.ne_and_not_mem_of_not_mem_cons noReturn
    -- The raw string is not closed yet, even by quotes half in the body.
    have goesOn := raw_goesOn closed rest
    have ih := ih (fun inner => closed (List.infix_cons inner)) noReturn
    by_cases ended : c = '\n'
    · simpa [pieces, ended, afterLineBreak, SourcePiece.ofChar] using ih
    · rw [List.cons_append, pieces, if_neg ended, if_neg (by simp [Ne.symm apartReturn]), step,
        if_neg goesOn]
      simp [SourcePiece.ofChar, ended, ih]

end SourceState

namespace LiteralState

/-- The contents of a literal are hidden, up to the quote behind them. -/
theorem glyphs_inLiteral (isQuote : quote = '"' ∨ quote = '\'') (closed : LiteralBody quote body)
    (rest : List Char) :
    (inLiteral quote).glyphs (body ++ quote :: rest) =
      body.map Glyph.inside ++ Glyph.plain quote :: code.glyphs rest := by
  -- By induction on the contents: each character of them is hidden, up to the quote behind them.
  induction closed with
  | nil => rcases isQuote with rfl | rfl <;> simp [inLiteral, glyphs, step, Glyph.plain]
  | @char c more unquoted unescaped inLine _ ih =>
    rcases isQuote with rfl | rfl <;>
      simp_all [inLiteral, glyphs, step, Glyph.inside]
  | @escape c more inLine _ ih =>
    rcases isQuote with rfl | rfl <;>
      simp_all [inLiteral, glyphs, step, Glyph.inside]

/-- The contents of a raw string are hidden, up to the quotes behind them. -/
theorem glyphs_rawString (closed : ¬ ['"', '"', '"'] <:+: body)
    (apart : ∀ d ∈ rest.head?, d ≠ '"') :
    rawString.glyphs (body ++ '"' :: '"' :: '"' :: rest) =
      body.map Glyph.inside ++
        Glyph.plain '"' :: Glyph.plain '"' :: Glyph.plain '"' :: code.glyphs rest := by
  induction body with
  | nil =>
    -- No quote follows the three, so they are the last ones of their run.
    rw [List.nil_append, glyphs, step, if_pos ⟨rfl, raw_ends apart⟩]
    simp [glyphs, step, Glyph.plain]
  | cons c body ih =>
    have goesOn := raw_goesOn closed rest
    have ih := ih fun inner => closed (List.infix_cons inner)
    rw [List.cons_append, glyphs, step, if_neg goesOn]
    simp [Glyph.inside, ih]

end LiteralState

end Literals

namespace Glyph

variable {glyphs : List Glyph} {text rest : List Char}

/-- Code is read as it is spelled, whatever follows. -/
theorem Spells.glyphs_eq (spelled : Spells glyphs text rest) :
    LiteralState.code.glyphs (text ++ rest) = glyphs ++ LiteralState.code.glyphs rest := by
  induction spelled with
  | done => rfl
  | plain unquoted _ _ _ ih =>
    simp [LiteralState.glyphs, LiteralState.step, unquoted, ih, Glyph.plain]
  | @literal quote body text rest glyphs isQuote closed apart later ih =>
    -- A double quote opens a plain string only where two more do not follow it.
    have open_quote : LiteralState.code.glyphs (quote :: (body ++ quote :: (text ++ rest))) =
        Glyph.plain quote ::
          (LiteralState.inLiteral quote).glyphs (body ++ quote :: (text ++ rest)) := by
      rcases isQuote with rfl | rfl
      · simp [LiteralState.glyphs, LiteralState.step, LiteralState.inLiteral, Glyph.plain,
          take_two_ne closed apart]
      · simp [LiteralState.glyphs, LiteralState.step, LiteralState.inLiteral, Glyph.plain]
    have inner := LiteralState.glyphs_inLiteral isQuote closed (text ++ rest)
    simp [open_quote, inner, ih]
  | @raw body text rest glyphs closed noReturn apart later ih =>
    have inner := LiteralState.glyphs_rawString closed apart
    simp [LiteralState.glyphs, LiteralState.step, inner, ih, Glyph.plain]

/-- Code is no comment, and stays on its lines. -/
theorem Spells.pieces_eq (spelled : Spells glyphs text rest) :
    SourceState.code.pieces (text ++ rest) =
      text.map SourcePiece.ofChar ++ SourceState.code.pieces rest := by
  induction spelled with
  | done => rfl
  | @plain c glyphs text rest unquoted noReturn noComment later ih =>
    by_cases ended : c = '\n'
    · simp [ended, SourceState.pieces, SourceState.afterLineBreak, SourcePiece.ofChar, ih]
    -- Behind a slash there is neither a second one nor a star.
    · have noLine : ¬ (c = '/' ∧ (text ++ rest).head? = some '/') := fun slashes =>
        (noComment slashes.1 '/' slashes.2).1 rfl
      have noBlock : ¬ (c = '/' ∧ (text ++ rest).head? = some '*') := fun slashes =>
        (noComment slashes.1 '*' slashes.2).2 rfl
      rw [List.cons_append, SourceState.pieces, if_neg ended, if_neg (by simp [noReturn]),
        SourceState.step, if_neg noLine, if_neg noBlock]
      simp [unquoted, ih, SourcePiece.ofChar, ended]
  | @literal quote body text rest glyphs isQuote closed apart later ih =>
    have open_quote : SourceState.code.pieces (quote :: (body ++ quote :: (text ++ rest))) =
        .code quote ::
          (SourceState.inLiteral quote).pieces (body ++ quote :: (text ++ rest)) := by
      rcases isQuote with rfl | rfl
      · simp [SourceState.pieces, SourceState.step, SourceState.inLiteral,
          take_two_ne closed apart]
      · simp [SourceState.pieces, SourceState.step, SourceState.inLiteral]
    have inner := SourceState.pieces_inLiteral isQuote closed (text ++ rest)
    have quoted : SourcePiece.ofChar quote = .code quote := by
      rcases isQuote with rfl | rfl <;> rfl
    simp [open_quote, inner, ih, quoted]
  | @raw body text rest glyphs closed noReturn apart later ih =>
    have inner := SourceState.pieces_rawString closed noReturn apart
    simp [SourceState.pieces, SourceState.step, SourceState.protects, inner, ih,
      SourcePiece.ofChar]

end Glyph

namespace SourceLine

/-- Pieces of code make up lines unless there are none. -/
theorem ofPieces_ne_nil {code text : List Char} (filled : code ≠ [] ∨ text ≠ []) (number : Nat) :
    ofPieces number code [] (text.map SourcePiece.ofChar) ≠ [] := by
  induction text generalizing code with
  | nil => simpa [ofPieces] using filled
  | cons c rest ih =>
    -- A line break ends a line at once, and any other character is kept for the line it is on.
    by_cases ended : c = '\n'
    · simp [SourcePiece.ofChar, ended, ofPieces]
    · simpa [SourcePiece.ofChar, ended, ofPieces] using @ih (code ++ [c]) (.inl (by simp))

/-- The lines that pieces of code make up are those of the code, if it ends in no line break. -/
theorem codeText_ofPieces {code text : List Char} (ended : text.getLast? ≠ some '\n')
    (number : Nat) :
    codeText (ofPieces number code [] (text.map SourcePiece.ofChar)) = code ++ text := by
  induction text generalizing code number with
  | nil => by_cases empty : code = [] <;> simp [ofPieces, codeText, List.intercalate, empty]
  | cons c rest ih =>
    by_cases filled : rest = []
    · have apart : c ≠ '\n' := by simpa [filled] using ended
      simp [SourcePiece.ofChar, apart, ofPieces, filled, codeText, List.intercalate]
    · have ended : rest.getLast? ≠ some '\n' := by
        rwa [List.getLast?_cons_of_ne_nil filled] at ended
      by_cases break_here : c = '\n'
      -- A line break starts a line that is there, as there is text behind it.
      · have more := @ofPieces_ne_nil [] rest (.inr filled) (number + 1)
        have later := @ih [] ended (number + 1)
        simp only [codeText] at later ⊢
        simp only [List.map_cons, SourcePiece.ofChar, break_here, if_true, ofPieces]
        rw [List.intercalate_cons_of_ne_nil (by simpa using more)]
        simpa using later
      · simpa [SourcePiece.ofChar, break_here, ofPieces] using @ih (code ++ [c]) ended number

/-- The code of a text without comments is the text. -/
theorem codeText_spelled {glyphs : List Glyph} {text : List Char}
    (spelled : Glyph.Spells glyphs text []) (ended : text.getLast? ≠ some '\n') :
    codeText (ofText text) = text := by
  have pieces := spelled.pieces_eq
  rw [List.append_nil, SourceState.pieces, List.append_nil] at pieces
  -- Its pieces are code alone, so the lines are those of the text.
  rw [ofText, pieces, codeText_ofPieces ended, List.nil_append]

end SourceLine

namespace Glyph

/-- A text as code is read as it is spelled. -/
theorem Spells.ofCode_eq {glyphs : List Glyph} {text : List Char}
    (spelled : Spells glyphs text []) :
    ofCode text = glyphs := by
  -- Nothing stands behind the text, so what is read of both is what is read of it.
  have read := spelled.glyphs_eq
  rwa [List.append_nil, LiteralState.glyphs, List.append_nil] at read

end Glyph

/-! Texts are written as literals in which nothing ends them. -/

namespace Literal

/-- A text is escaped for a plain string literal. -/
def escape (value : List Char) : List Char :=
  value.flatMap escapeChar

/-- Each character is escaped by itself. -/
theorem escape_cons (c : Char) (rest : List Char) :
    escape (c :: rest) = escapeChar c ++ escape rest :=
  rfl

/-- The contents of a rendered literal do not close it. -/
theorem literalBody_escape (value : List Char) : LiteralBody '"' (escape value) := by
  induction value with
  | nil => exact .nil
  | cons c rest ih =>
    rw [escape_cons, escapeChar]
    -- Five characters are written with a backslash, and all others as they are.
    split_ifs with backslash quote line tab back
    · exact .escape (by decide) ih
    · exact .escape (by decide) ih
    · exact .escape (by decide) ih
    · exact .escape (by decide) ih
    · exact .escape (by decide) ih
    · exact .char quote backslash ⟨line, back⟩ ih

/-- The literal of a text, as code. -/
def glyphs (value : List Char) : List Glyph :=
  Glyph.plain '"' :: ((escape value).map Glyph.inside ++ [Glyph.plain '"'])

/-- A rendered literal is spelled where no quote comes behind it. -/
theorem spells_render (value : List Char) {rest : List Char}
    (apart : ∀ d ∈ rest.head?, d ≠ '"') : Glyph.Spells (glyphs value) (render value) rest :=
  -- A literal is spelled by its own rule, which asks for no other quote behind it.
  .literal (.inl rfl) (literalBody_escape value) apart .done

/-- Escaping a text is undone by reading it. -/
theorem unescape_escape (value : List Char) : unescape (escape value) = value := by
  induction value with
  | nil => rfl
  | cons c rest ih =>
    rw [escape_cons, escapeChar]
    -- Each character with an escape of its own is restored by that, and the others stand as they
    -- are.
    split_ifs with backslash quote line tab back
    · simp [unescape, ih, backslash]
    · simp [unescape, ih, quote]
    · simp [unescape, ih, line]
    · simp [unescape, ih, tab]
    · simp [unescape, ih, back]
    · rw [List.singleton_append, unescape.eq_def]
      split <;> simp_all

end Literal

end IndexAudit
