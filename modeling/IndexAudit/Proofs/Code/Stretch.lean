import IndexAudit.Proofs.Code.Spelling
import Mathlib.Data.List.Infix
import Mathlib.Data.List.TakeWhile

/-!
Code is a row of literals and of characters outside of them.

A literal may be left open, a plain one at the end of its line and a raw one at the end of the code.
Between the quotes of literals spaces stand for everything but line breaks, and code in which they
do is a row of the same shape.
-/

namespace IndexAudit

/-- What stands behind the quote that opens a plain literal and does not close it. -/
inductive QuotedBody (quote : Char) : List Char → Prop
  | nil : QuotedBody quote []
  | char {c : Char} {rest : List Char} (unquoted : c ≠ quote) (unescaped : c ≠ '\\')
      (inLine : c ≠ '\n') (later : QuotedBody quote rest) : QuotedBody quote (c :: rest)
  | escape {c : Char} {rest : List Char} (inLine : c ≠ '\n') (later : QuotedBody quote rest) :
      QuotedBody quote ('\\' :: c :: rest)

/-- The quotes around a raw string. -/
def tripleQuote : List Char := ['"', '"', '"']

/-- Two more quotes follow the one that opens a plain string only if the body is empty. -/
theorem QuotedBody.take_two_ne {body rest : List Char} (inside : QuotedBody '"' body)
    (single : body = [] → rest.take 2 ≠ ['"', '"']) : (body ++ rest).take 2 ≠ ['"', '"'] := by
  -- The body does not begin with a quote, unless it is empty.
  cases inside with
  | nil => exact single rfl
  | char unquoted => simp [unquoted]
  | escape => simp

/-- No three quotes begin in a text that has none and ends in no quote, whatever follows it. -/
theorem not_tripleQuote_prefix {inner back : List Char} (noQuotes : ¬ tripleQuote <:+: inner)
    (unquoted : ∀ d ∈ inner.getLast?, d ≠ '"') (within : back <:+ inner) (filled : back ≠ [])
    (rest : List Char) : ¬ tripleQuote <+: back ++ rest := by
  intro inFront
  rcases List.prefix_or_prefix_of_prefix inFront (List.prefix_append back _) with inside | part
  · exact noQuotes (inside.isInfix.trans within.isInfix)
  -- The three quotes would run over the end, but the last character there is no quote.
  · have quote : back.getLast filled = '"' := by
      have quotes : ∀ d ∈ tripleQuote, d = '"' := by simp [tripleQuote]
      exact quotes _ (part.subset (List.getLast_mem filled))
    refine unquoted '"' ?_ rfl
    obtain ⟨front, rfl⟩ := within
    rw [List.getLast?_append_of_ne_nil _ filled, List.getLast?_eq_some_getLast filled, quote]
    rfl

/-- A literal with its quotes, or a character outside of literals, which stands like a quote. -/
structure Stretch where
  opening : List Char
  /-- What stands between the quotes. -/
  body : List Char
  closing : List Char
deriving Repr, DecidableEq

namespace Stretch

/-- The text of a stretch. -/
def text (self : Stretch) : List Char :=
  self.opening ++ (self.body ++ self.closing)

/-- A stretch as code. -/
def glyphs (self : Stretch) : List Glyph :=
  self.opening.map Glyph.plain ++ (self.body.map Glyph.inside ++ self.closing.map Glyph.plain)

/-- A stretch with a space for each byte between its quotes, line breaks apart. -/
def blank (self : Stretch) : Stretch :=
  { self with body := self.body.flatMap fun c => (Glyph.inside c).masked }

/-- Code is divided into its literals and the characters outside of them, from left to right. -/
inductive Divides : List Stretch → List Char → Prop
  | nil : Divides [] []
  | plain {c : Char} {row : List Stretch} {rest : List Char} (unquoted : c ≠ '"' ∧ c ≠ '\'')
      (later : Divides row rest) : Divides (⟨[c], [], []⟩ :: row) (c :: rest)
  /-- A plain literal, which is no quote of a raw one. -/
  | closed {quote : Char} {body rest : List Char} {row : List Stretch}
      (isQuote : quote = '"' ∨ quote = '\'') (inside : QuotedBody quote body)
      (single : quote = '"' → body = [] → ∀ d ∈ rest.head?, d ≠ '"') (later : Divides row rest) :
      Divides (⟨[quote], body, [quote]⟩ :: row) (quote :: (body ++ quote :: rest))
  /-- A plain literal that its line leaves open, in front of a lone backslash or without one. -/
  | cutShort {quote : Char} {body tail rest : List Char} {row : List Stretch}
      (isQuote : quote = '"' ∨ quote = '\'') (inside : QuotedBody quote body)
      (lone : tail = [] ∨ tail = ['\\']) (ends : ∀ d ∈ rest.head?, d = '\n')
      (later : Divides row rest) :
      Divides (⟨[quote], body ++ tail, []⟩ :: row) (quote :: (body ++ tail ++ rest))
  /-- A raw literal, which the last three of the first run of three or more quotes close. -/
  | raw {inner rest : List Char} {more : Nat} {row : List Stretch}
      (noQuotes : ¬ tripleQuote <:+: inner) (unquoted : ∀ d ∈ inner.getLast?, d ≠ '"')
      (last : ∀ d ∈ rest.head?, d ≠ '"') (later : Divides row rest) :
      Divides (⟨tripleQuote, inner ++ List.replicate more '"', tripleQuote⟩ :: row)
        (tripleQuote ++ (inner ++ List.replicate more '"' ++ (tripleQuote ++ rest)))
  /-- A raw literal that nothing closes. -/
  | unclosed {body : List Char} (noQuotes : ¬ tripleQuote <:+: body) :
      Divides [⟨tripleQuote, body, []⟩] (tripleQuote ++ body)

/-! All code can be divided. -/

/-- A plain literal is closed behind its body, or its line ends. -/
theorem exists_quotedBody (quote : Char) (text : List Char) :
    ∃ body rest, QuotedBody quote body ∧ (text = body ++ quote :: rest ∨
      ∃ tail, (tail = [] ∨ tail = ['\\']) ∧ text = body ++ tail ++ rest ∧
        ∀ d ∈ rest.head?, d = '\n') := by
  match text with
  | [] => exact ⟨[], [], .nil, .inr ⟨[], .inl rfl, rfl, by simp⟩⟩
  | c :: text =>
    by_cases ends : c = quote
    · exact ⟨[], text, .nil, .inl (by rw [ends]; rfl)⟩
    by_cases lineBreak : c = '\n'
    · exact ⟨[], c :: text, .nil, .inr ⟨[], .inl rfl, rfl, by simpa using lineBreak⟩⟩
    by_cases backslash : c = '\\'
    · -- A backslash goes with the character behind it, unless the line ends there.
      subst backslash
      match text with
      | [] => exact ⟨[], [], .nil, .inr ⟨['\\'], .inr rfl, rfl, by simp⟩⟩
      | d :: text =>
        by_cases inLine : d = '\n'
        · exact ⟨[], d :: text, .nil, .inr ⟨['\\'], .inr rfl, rfl, by simpa using inLine⟩⟩
        · obtain ⟨body, rest, inside, split⟩ := exists_quotedBody quote text
          exact ⟨'\\' :: d :: body, rest, .escape inLine inside, by simpa using split⟩
    · obtain ⟨body, rest, inside, split⟩ := exists_quotedBody quote text
      exact ⟨c :: body, rest, .char ends backslash lineBreak inside, by simpa using split⟩
termination_by text.length

/-- The first three quotes in a row stand behind something that ends in no quote. -/
theorem exists_inner (text : List Char) : ¬ tripleQuote <:+: text ∨
    ∃ inner rest, text = inner ++ (tripleQuote ++ rest) ∧ ¬ tripleQuote <:+: inner ∧
      ∀ d ∈ inner.getLast?, d ≠ '"' := by
  induction text with
  | nil => exact .inl (by decide)
  | cons c text ih =>
    by_cases here : tripleQuote <+: c :: text
    · obtain ⟨rest, whole⟩ := here
      exact .inr ⟨[], rest, whole.symm, by decide, by simp⟩
    rcases ih with nowhere | ⟨inner, rest, rfl, noQuotes, unquoted⟩
    · exact .inl fun inside => (List.infix_cons_iff.mp inside).elim here nowhere
    · refine .inr ⟨c :: inner, rest, rfl, fun inside => ?_, ?_⟩
      · refine (List.infix_cons_iff.mp inside).elim (fun front => here ?_) noQuotes
        exact front.trans (List.prefix_append (c :: inner) _)
      · cases inner with
        | nil =>
          -- A quote here would be the first of the three.
          rintro d ⟨⟩ rfl
          exact here ⟨'"' :: rest, rfl⟩
        | cons d inner => simpa using unquoted

/-- All code is divided into literals and characters outside of them. -/
theorem exists_divides (code : List Char) : ∃ row, Divides row code := by
  induction size : code.length using Nat.strong_induction_on generalizing code with
  | _ size ih =>
    subst size
    cases code with
    | nil => exact ⟨[], .nil⟩
    | cons c text =>
      by_cases plain : c ≠ '"' ∧ c ≠ '\''
      · obtain ⟨row, divides⟩ := ih text.length (Nat.lt_succ_self _) text rfl
        exact ⟨_, .plain plain divides⟩
      have isQuote : c = '"' ∨ c = '\'' := by_contra fun other => plain (not_or.mp other)
      by_cases triple : tripleQuote <+: c :: text
      · obtain ⟨behind, whole⟩ := triple
        have shorter : behind.length < (c :: text).length := by simp [← whole, tripleQuote]; omega
        rw [← whole]
        rcases exists_inner behind with nowhere | ⟨inner, rest, rfl, noQuotes, unquoted⟩
        · exact ⟨_, .unclosed nowhere⟩
        · -- More quotes behind the first three belong to the contents.
          obtain ⟨more, after, rfl, last⟩ : ∃ more after, rest = List.replicate more '"' ++ after ∧
              ∀ d ∈ after.head?, d ≠ '"' := by
            refine ⟨(rest.takeWhile (· == '"')).length, rest.dropWhile (· == '"'), ?_, ?_⟩
            · rw [← List.eq_replicate_of_mem fun d member => by
                simpa using List.mem_takeWhile_imp member, List.takeWhile_append_dropWhile]
            · intro d first
              have stopped := List.head?_dropWhile_not (· == '"') rest
              simpa [Option.mem_def.mp first] using stopped
          have least : after.length < (c :: text).length := by
            simp only [List.length_append, List.length_replicate] at shorter
            omega
          obtain ⟨row, divides⟩ := ih after.length least after rfl
          have shape : inner ++ (tripleQuote ++ (List.replicate more '"' ++ after)) =
              inner ++ List.replicate more '"' ++ (tripleQuote ++ after) := by
            have swap : tripleQuote ++ List.replicate more '"' =
                List.replicate more '"' ++ tripleQuote := by
              rw [show tripleQuote = List.replicate 3 '"' from rfl, List.replicate_append_replicate,
                List.replicate_append_replicate, Nat.add_comm]
            rw [← List.append_assoc tripleQuote, swap]
            simp
          rw [shape]
          exact ⟨_, .raw noQuotes unquoted last divides⟩
      · obtain ⟨body, rest, inside, rfl | ⟨tail, lone, rfl, ends⟩⟩ := exists_quotedBody c text
        · have shorter : rest.length < (c :: (body ++ c :: rest)).length := by simp; omega
          obtain ⟨row, divides⟩ := ih rest.length shorter rest rfl
          refine ⟨_, .closed isQuote inside ?_ divides⟩
          rintro rfl rfl d first rfl
          obtain ⟨after, rfl⟩ := List.head?_eq_some_iff.mp first
          exact triple ⟨after, rfl⟩
        · have shorter : rest.length < (c :: (body ++ tail ++ rest)).length := by simp; omega
          obtain ⟨row, divides⟩ := ih rest.length shorter rest rfl
          exact ⟨_, .cutShort isQuote inside lone ends divides⟩
/-! Code is read as it is divided. -/

end Stretch

namespace LiteralState

variable {quote : Char} {body rest : List Char}

/-- A quote that is not the first of three opens a plain literal. -/
theorem glyphs_quote (isQuote : quote = '"' ∨ quote = '\'')
    (single : quote = '"' → rest.take 2 ≠ ['"', '"']) :
    code.glyphs (quote :: rest) = Glyph.plain quote :: (inLiteral quote).glyphs rest := by
  -- Only double quotes come in threes.
  rcases isQuote with rfl | rfl
  · simp [glyphs, step, inLiteral, Glyph.plain, single rfl]
  · simp [glyphs, step, inLiteral, Glyph.plain]

/-- The body of a plain literal is hidden. -/
theorem glyphs_quotedBody (isQuote : quote = '"' ∨ quote = '\'') (inside : QuotedBody quote body)
    (rest : List Char) :
    (inLiteral quote).glyphs (body ++ rest) =
      body.map Glyph.inside ++ (inLiteral quote).glyphs rest := by
  -- By induction on the body: no character of it ends the literal.
  induction inside with
  | nil => rfl
  | char unquoted unescaped inLine _ ih =>
    rcases isQuote with rfl | rfl <;> simp_all [inLiteral, glyphs, step, Glyph.inside]
  | escape inLine _ ih =>
    rcases isQuote with rfl | rfl <;> simp_all [inLiteral, glyphs, step, Glyph.inside]

/-- A plain literal ends with its line, in front of which a backslash protects nothing. -/
theorem glyphs_lineEnd (isQuote : quote = '"' ∨ quote = '\'') {tail : List Char}
    (lone : tail = [] ∨ tail = ['\\']) (ends : ∀ d ∈ rest.head?, d = '\n') :
    (inLiteral quote).glyphs (tail ++ rest) = tail.map Glyph.inside ++ code.glyphs rest := by
  have line : (inLiteral quote).glyphs rest = code.glyphs rest := by
    cases rest with
    | nil => rfl
    | cons d rest =>
      obtain rfl : d = '\n' := ends d rfl
      rcases isQuote with rfl | rfl <;> simp [inLiteral, glyphs, step]
  have alone : rest.head?.any (· != '\n') = false := by
    cases rest with
    | nil => rfl
    | cons d rest => simpa using ends d rfl
  -- A backslash at the end of a line has no character to protect.
  rcases lone with rfl | rfl
  · exact line
  · rcases isQuote with rfl | rfl <;> simp_all [inLiteral, glyphs, step, Glyph.inside]

/-- What is in front of the first three quotes in a raw literal is hidden. -/
theorem glyphs_rawBody (apart : ∀ back, back <:+ body → back ≠ [] → ¬ tripleQuote <+: back ++ rest) :
    rawString.glyphs (body ++ rest) = body.map Glyph.inside ++ rawString.glyphs rest := by
  induction body with
  | nil => rfl
  | cons c body ih =>
    -- Three quotes here would be the first ones, though they are to stand behind the body.
    have goesOn : ¬ (c = '"' ∧ (body ++ rest).take 2 = ['"', '"'] ∧
        (body ++ rest).take 3 ≠ ['"', '"', '"']) := by
      rintro ⟨rfl, two, -⟩
      refine apart ('"' :: body) (List.suffix_refl _) (by simp) ⟨(body ++ rest).drop 2, ?_⟩
      rw [List.cons_append, ← List.take_append_drop 2 (body ++ rest), two]
      simp [tripleQuote]
    have later := ih fun back within filled =>
      apart back (within.trans (List.suffix_cons c body)) filled
    rw [List.cons_append, glyphs, step, if_neg goesOn]
    simp [Glyph.inside, later]

/-- Quotes in front of three others in a raw literal are hidden. -/
theorem glyphs_moreQuotes (more : Nat) (rest : List Char) :
    rawString.glyphs (List.replicate more '"' ++ (tripleQuote ++ rest)) =
      (List.replicate more '"').map Glyph.inside ++ rawString.glyphs (tripleQuote ++ rest) := by
  induction more with
  | zero => rfl
  | succ more ih =>
    have quotes : (List.replicate more '"' ++ (tripleQuote ++ rest)).take 3 = ['"', '"', '"'] := by
      match more with
      | 0 => rfl
      | 1 => rfl
      | 2 => rfl
      | more + 3 => rfl
    -- A fourth quote behind three makes the first of them one more character.
    have goesOn : ¬ ('"' = '"' ∧ (List.replicate more '"' ++ (tripleQuote ++ rest)).take 2 =
        ['"', '"'] ∧ (List.replicate more '"' ++ (tripleQuote ++ rest)).take 3 ≠
          ['"', '"', '"']) := fun closes => closes.2.2 quotes
    rw [List.replicate_succ, List.cons_append, glyphs, step, if_neg goesOn, ih]
    simp [Glyph.inside]

/-- Three quotes open a raw literal, and close one where no other quote comes behind. -/
theorem glyphs_tripleQuote (rest : List Char) :
    code.glyphs (tripleQuote ++ rest) =
        tripleQuote.map Glyph.plain ++ rawString.glyphs rest ∧
      ((∀ d ∈ rest.head?, d ≠ '"') → rawString.glyphs (tripleQuote ++ rest) =
        tripleQuote.map Glyph.plain ++ code.glyphs rest) := by
  constructor
  · simp [tripleQuote, glyphs, step, Glyph.plain]
  -- Behind the closing quotes there is no other one, so they are the last three.
  · intro last
    have ends := raw_ends last
    rw [show tripleQuote ++ rest = '"' :: '"' :: '"' :: rest from rfl, glyphs, step,
      if_pos ⟨rfl, ends⟩]
    simp [tripleQuote, glyphs, step, Glyph.plain]

end LiteralState

namespace Stretch

/-- Code is read as it is divided: only what stands between quotes is hidden. -/
theorem Divides.glyphs_eq {row : List Stretch} {code : List Char} (divides : Divides row code) :
    LiteralState.code.glyphs code = row.flatMap (·.glyphs) := by
  induction divides with
  | nil => rfl
  | plain unquoted _ ih =>
    simp [LiteralState.glyphs, LiteralState.step, unquoted, ih, glyphs, Glyph.plain]
  | @closed quote body rest row isQuote inside single _ ih =>
    -- The opening quote is not the first of three, which would begin a raw string.
    have apart : quote = '"' → (body ++ quote :: rest).take 2 ≠ ['"', '"'] := by
      rintro rfl
      refine inside.take_two_ne fun empty => ?_
      cases rest with
      | nil => simp
      | cons d rest => simpa using single rfl empty d rfl
    -- The closing quote itself is not hidden, and the scan is back in code behind it.
    have ends : (LiteralState.inLiteral quote).glyphs (quote :: rest) =
        Glyph.plain quote :: LiteralState.code.glyphs rest := by
      rcases isQuote with rfl | rfl <;>
        simp [LiteralState.inLiteral, LiteralState.glyphs, LiteralState.step, Glyph.plain]
    rw [LiteralState.glyphs_quote isQuote apart, LiteralState.glyphs_quotedBody isQuote inside, ends,
      ih]
    simp [glyphs]
  | @cutShort quote body tail rest row isQuote inside lone ends _ ih =>
    have apart : quote = '"' → (body ++ tail ++ rest).take 2 ≠ ['"', '"'] := by
      rintro rfl
      rw [List.append_assoc]
      refine inside.take_two_ne fun _ => ?_
      rcases lone with rfl | rfl
      · cases rest with
        | nil => simp
        | cons d rest => simp [show d = '\n' from ends d rfl]
      · simp
    rw [LiteralState.glyphs_quote isQuote apart, List.append_assoc,
      LiteralState.glyphs_quotedBody isQuote inside, LiteralState.glyphs_lineEnd isQuote lone ends, ih]
    simp [glyphs]
  | @raw inner rest more row noQuotes unquoted last _ ih =>
    -- No three quotes come before the last ones, so the scan stays inside till then.
    have apart : ∀ back, back <:+ inner → back ≠ [] → ¬ tripleQuote <+:
        back ++ (List.replicate more '"' ++ (tripleQuote ++ rest)) := fun back within filled =>
      not_tripleQuote_prefix noQuotes unquoted within filled _
    rw [(LiteralState.glyphs_tripleQuote _).1, List.append_assoc, LiteralState.glyphs_rawBody apart,
      LiteralState.glyphs_moreQuotes, (LiteralState.glyphs_tripleQuote rest).2 last, ih]
    simp [glyphs]
  | @unclosed body noQuotes =>
    have apart : ∀ back, back <:+ body → back ≠ [] → ¬ tripleQuote <+: back ++ [] := by
      intro back within _ inFront
      rw [List.append_nil] at inFront
      exact noQuotes (inFront.isInfix.trans within.isInfix)
    have hidden := LiteralState.glyphs_rawBody apart
    rw [List.append_nil] at hidden
    rw [(LiteralState.glyphs_tripleQuote _).1, hidden]
    simp [glyphs, LiteralState.glyphs]

/-! The contents of literals are blanked. -/

/-- What stands for the contents of a literal is white space. -/
theorem mem_blank {stretch : Stretch} : ∀ c ∈ stretch.blank.body, c = ' ' ∨ c = '\n' := by
  intro c member
  obtain ⟨d, -, isMasked⟩ := List.mem_flatMap.mp member
  -- A hidden character leaves spaces, and a line break leaves itself.
  by_cases lineBreak : d = '\n'
  · exact .inr (by simpa [Glyph.masked, Glyph.inside, lineBreak] using isMasked)
  · refine .inl (List.eq_of_mem_replicate (n := d.utf8Size) ?_)
    simpa [Glyph.masked, Glyph.inside, lineBreak] using isMasked

/-- What stands for the body of a plain literal is a body too. -/
theorem quotedBody_blank {quote : Char} (isQuote : quote = '"' ∨ quote = '\'') {body : List Char}
    (inLine : '\n' ∉ body) :
    QuotedBody quote (body.flatMap fun c => (Glyph.inside c).masked) := by
  -- A hidden character is masked by as many spaces as it has bytes.
  have spaces : ∀ c ∈ body.flatMap fun c => (Glyph.inside c).masked, c = ' ' := by
    intro c member
    obtain ⟨d, listed, isMasked⟩ := List.mem_flatMap.mp member
    have apart : d ≠ '\n' := fun same => inLine (same ▸ listed)
    refine List.eq_of_mem_replicate (n := d.utf8Size) ?_
    simpa [Glyph.masked, Glyph.inside, apart] using isMasked
  generalize (body.flatMap fun c => (Glyph.inside c).masked) = text at spaces
  induction text with
  | nil => exact .nil
  | cons c text ih =>
    obtain ⟨rfl, later⟩ := List.forall_mem_cons.mp spaces
    refine .char ?_ (by decide) (by decide) (ih later)
    rcases isQuote with rfl | rfl <;> decide

/-- There is no line break in the body of a plain literal. -/
theorem lineBreak_notMem {quote : Char} {body : List Char} (inside : QuotedBody quote body) :
    '\n' ∉ body := by
  -- Neither a character of the body nor one that is escaped is a line break.
  induction inside with
  | nil => simp
  | char _ _ inLine _ ih => simp [Ne.symm inLine, ih]
  | escape inLine _ ih => simp [Ne.symm inLine, ih]

/-- Code with its literals blanked begins as the code does. -/
theorem Divides.head?_blank {row : List Stretch} {code : List Char} (divides : Divides row code) :
    (row.flatMap (·.blank.text)).head? = code.head? := by
  -- Each kind of stretch keeps its first character.
  cases divides <;> simp [blank, text, tripleQuote]

/-- Code with its literals blanked is divided as the code is. -/
theorem Divides.blank {row : List Stretch} {code : List Char} (divides : Divides row code) :
    Divides (row.map (·.blank)) (row.flatMap (·.blank.text)) := by
  have noQuote {body : List Char} :
      '"' ∉ body.flatMap fun c => (Glyph.inside c).masked := fun member => by
    have white := @mem_blank ⟨[], body, []⟩ '"' member
    simp at white
  have noTriple {body : List Char} :
      ¬ tripleQuote <:+: body.flatMap fun c => (Glyph.inside c).masked := fun inside =>
    noQuote (inside.subset (by decide))
  induction divides with
  | nil => exact .nil
  | plain unquoted _ ih => exact .plain unquoted ih
  | @closed quote body rest row isQuote inside single later ih =>
    have closed := Divides.closed isQuote (quotedBody_blank isQuote (lineBreak_notMem inside))
      (fun isDouble empty => ?_) ih
    · simpa [Stretch.blank, text] using closed
    · rw [later.head?_blank]
      refine single isDouble (List.eq_nil_iff_forall_not_mem.mpr fun c member => ?_)
      -- A character leaves at least one space.
      have none := List.flatMap_eq_nil_iff.mp empty c member
      simp only [Glyph.masked] at none
      split at none
      · simp [Glyph.inside, Nat.ne_of_gt c.utf8Size_pos] at none
      · cases none
  | @cutShort quote body tail rest row isQuote inside lone ends later ih =>
    have inLine : '\n' ∉ body ++ tail := by
      rcases lone with rfl | rfl <;> simp [lineBreak_notMem inside]
    have cutShort := Divides.cutShort isQuote (quotedBody_blank isQuote inLine) (.inl rfl)
      (fun d first => ends d (by rwa [later.head?_blank] at first)) ih
    simpa [Stretch.blank, text] using cutShort
  | @raw inner rest more row _ _ last later ih =>
    have raw := @Divides.raw ((inner ++ List.replicate more '"').flatMap
        fun c => (Glyph.inside c).masked) _ 0 _ noTriple
      (fun d isLast same => noQuote (same ▸ List.mem_of_getLast? isLast))
      (fun d first => last d (by rwa [later.head?_blank] at first)) ih
    simpa only [Stretch.blank, text, List.replicate_zero, List.append_nil, List.map_cons,
      List.flatMap_cons, List.append_assoc] using raw
  | @unclosed body _ =>
    have unclosed := Divides.unclosed (@noTriple body)
    simpa [Stretch.blank, text] using unclosed

/-- What is blank already stays as it is. -/
theorem blank_blank (stretch : Stretch) : stretch.blank.blank = stretch.blank := by
  -- A space and a line break, if hidden, leave themselves.
  have each : ∀ c ∈ stretch.blank.body, (Glyph.inside c).masked = [c] := by
    intro c member
    rcases mem_blank c member with rfl | rfl <;> decide
  have same : stretch.blank.body.flatMap (fun c => (Glyph.inside c).masked) =
      stretch.blank.body := by
    rw [List.flatMap_congr each]
    simp
  rw [blank, same]

/-- The contents of literals are hidden in a row one by one. -/
theorem Divides.mask_eq {row : List Stretch} {code : List Char} (divides : Divides row code) :
    Glyph.mask code = row.flatMap (·.blank.text) := by
  have plain (text : List Char) : (text.map Glyph.plain).flatMap Glyph.masked = text := by
    simp [List.flatMap_map, Glyph.masked, Glyph.plain]
  -- What is not in a stretch's body is plain and stays, and the body is blanked.
  have each : ∀ stretch : Stretch, stretch.glyphs.flatMap Glyph.masked = stretch.blank.text := by
    intro stretch
    simp only [glyphs, List.flatMap_append, plain, Stretch.blank, text, List.flatMap_map]
  rw [Glyph.mask, Glyph.ofCode, divides.glyphs_eq, List.flatMap_assoc]
  simp only [each]

end Stretch

/-- Hiding the contents of literals again changes nothing. -/
theorem Glyph.mask_mask (code : List Char) : mask (mask code) = mask code := by
  -- Code is a row of stretches, and to hide one again is to hide it once.
  obtain ⟨row, divides⟩ := Stretch.exists_divides code
  rw [divides.mask_eq, divides.blank.mask_eq, List.flatMap_map]
  simp only [Stretch.blank_blank]

end IndexAudit
