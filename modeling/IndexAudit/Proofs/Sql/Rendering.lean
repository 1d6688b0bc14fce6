import IndexAudit.Proofs.Offset.Token

/-!
Tokens that are written out and read back.

A space ends every token, and none goes on with one. So the tokens of a text stand for themselves:
written out behind each other they are read as the same tokens again.
-/

namespace IndexAudit

namespace SqlToken

/-- A token that is written in some text. -/
def IsLexeme (token : SqlToken) : Prop :=
  ∃ chars rest, Writes token chars rest

/-- The tokens that a text spells are written in it. -/
theorem Spells.isLexeme {tokens : List SqlToken} {text : List Char} (spelled : Spells tokens text) :
    ∀ token ∈ tokens, IsLexeme token := by
  -- Comments and white space add no token, and each token is written where it stands.
  induction spelled with
  | done => simp
  | blank _ _ ih => exact ih
  | lineComment _ _ _ ih => exact ih
  | blockComment _ _ ih => exact ih
  | openComment _ => simp
  | token written _ ih => exact List.forall_mem_cons.mpr ⟨⟨_, _, written⟩, ih⟩

section Space

variable {rest : List Char}

/-- An identifier that lacks one of the quotes is written out in a quote that it lacks. -/
theorem writes_render_quoted {quote : Char} {inside : List Char}
    (mark : quote = '"' ∨ quote = '\x60') (apart : quote ∉ inside) :
    Writes (.quoted (String.ofList inside)) (render (.quoted (String.ofList inside))) rest := by
  rw [render, String.toList_ofList]
  by_cases double : '"' ∈ inside
  · -- The quote that it was written in is the other one.
    have other : '\x60' ∉ inside := by
      rcases mark with rfl | rfl
      · exact absurd double apart
      · exact apart
    simpa [double] using @Writes.quoted _ _ rest (.inr rfl) other
  · simpa [double] using @Writes.quoted _ _ rest (.inl rfl) double

/-- A token that is written out ends in front of a space, and at the end of a text. -/
theorem writes_render {token : SqlToken} (lexeme : IsLexeme token)
    (ends : ∀ d ∈ rest.head?, d = ' ') : Writes token token.render rest := by
  have stops {p : Char → Bool} (space : p ' ' = false) : ∀ d ∈ rest.head?, p d = false :=
    fun d first => ends d first ▸ space
  -- A parameter and a string are written out without what they are called or hold.
  have parameter : Writes .parameter ['?'] rest := .positional (by simp) (stops (by decide))
  have string : Writes .string ['\'', '\''] rest :=
    @Writes.string [] rest fun quote => absurd (ends _ quote) (by decide)
  obtain ⟨chars, behind, written⟩ := lexeme
  -- Whatever the token was written as, it is written out in the one form that it has.
  cases written with
  | word starts parts _ =>
    rw [render, String.toList_ofList]
    exact .word starts parts (stops (by decide))
  | quoted mark apart => exact writes_render_quoted mark apart
  | openQuoted mark apart => exact writes_render_quoted mark apart
  | number _ _ _ => exact .number (by decide) (by simp) (stops (by decide))
  | string _ => exact string
  | openString => exact string
  | named _ _ _ => exact parameter
  | positional _ _ => exact parameter
  | numbered _ _ _ => exact parameter
  | punctuation listed => exact .punctuation listed
  | pair listed =>
    rw [render, String.toList_ofList]
    exact .pair listed
  | @sign c _ sign _ =>
    -- Nothing that a sign is joined with to something else is a space.
    have apart : ¬ joins c ' ' := by
      simp [joins, pairOperators, show startsWord ' ' = false by decide,
        show ' '.isDigit = false by decide]
    rw [render, String.toList_ofList]
    exact .sign sign fun d first => ends d first ▸ apart

end Space

/-- Tokens with spaces between them are spelled by what each of them is written out as. -/
theorem spells_renderAll {tokens : List SqlToken} (lexemes : ∀ token ∈ tokens, IsLexeme token) :
    Spells tokens (renderAll tokens) := by
  -- Each token ends in front of the space behind it, or in front of the end.
  induction tokens with
  | nil => exact .done
  | cons token rest ih =>
    obtain ⟨here, later⟩ := List.forall_mem_cons.mp lexemes
    cases rest with
    | nil =>
      have alone := Spells.token (@writes_render [] _ here (by simp)) .done
      simpa [renderAll] using alone
    | cons next rest =>
      have spaced := Spells.token (writes_render here (by simp))
        (.blank (c := ' ') (by decide) (ih later))
      simpa [renderAll, List.intercalate_cons_cons] using spaced

/-- Tokens are read back where each of them is one that texts have, and nowhere else. -/
theorem tokenize_renderAll_iff {tokens : List SqlToken} :
    tokenize (renderAll tokens) = tokens ↔ ∀ token ∈ tokens, IsLexeme token := by
  -- To be read back is to be spelled by the rendering, and that spells lexemes alone.
  rw [tokenize_eq_iff]
  exact ⟨Spells.isLexeme, spells_renderAll⟩

/--
The tokens of a text are found in as many steps as the text has characters, and read back.

They stand for themselves: written out with one space between two of them they are the same tokens.
-/
theorem tokenize_rendered (text : List Char) :
    tokens? text = some (tokenize text) ∧ tokenize (renderAll (tokenize text)) = tokenize text :=
  -- What a text spells are lexemes, and those are read back.
  ⟨tokens?_eq text, tokenize_renderAll_iff.mpr (spells_tokenize text).isLexeme⟩

/-- A comment, a literal left open and a sign that would begin a comment if another one followed. -/
example : renderAll (ofString "a-/*x*/-1.5e3 \x60q\"\x60::t, :p 'it''s") =
    "a - - 0 \x60q\"\x60 :: t , ? ''".toList := by
  decide +kernel

end SqlToken

end IndexAudit
