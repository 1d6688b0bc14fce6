import IndexAudit.Proofs.Code.Closed
import IndexAudit.Proofs.Entity.Declaration
import IndexAudit.Proofs.Offset.Annotation

/-!
The text of a query is read as it was written.

Each text can be written as string literals between any other arguments of an annotation. What
divides comments, literals, annotations and arguments sees nothing of what the literals hold, so
reading the literals gives the text back.
-/

namespace IndexAudit

/-! Lines of code behind other code. -/

namespace SourceLine

/-- Code in front of pieces stands in front of the code of their lines. -/
theorem codeText_front (number : Nat) (front code comment : List Char)
    (pieces : List SourcePiece) :
    codeText (ofPieces number (front ++ code) comment pieces) =
      front ++ codeText (ofPieces number code comment pieces) := by
  -- The code grows at its end with the pieces, so what stands in front of it is never looked at.
  induction pieces generalizing code comment with
  | nil =>
    cases front with
    | nil => rfl
    | cons c front => by_cases empty : code = [] ∧ comment = [] <;> simp [ofPieces, codeText, empty]
  | cons piece rest ih =>
    cases piece with
    | code c => simpa [ofPieces] using ih (code ++ [c]) comment
    | comment c => exact ih code (comment ++ [c])
    | lineBreak =>
      -- The first line ends here, and no later one has anything of the front.
      generalize behind : ofPieces (number + 1) [] [] rest = lines
      cases lines with
      | nil => simp [ofPieces, behind, codeText]
      | cons line lines => simp [ofPieces, behind, codeText]

/-- The code of lines does not hang on how they are counted. -/
theorem codeText_number (number : Nat) (pieces : List SourcePiece) :
    codeText (ofPieces (number + 1) [] [] pieces) = codeText (ofPieces number [] [] pieces) := by
  -- Counting from one more moves all lines down by one, and keeps their code.
  rw [ofPieces_below 1 number]
  simp [codeText, below, Function.comp_def]

/-- Pieces of code stand in front of the code of the lines behind them. -/
theorem codeText_map {pieces : List SourcePiece} (filled : pieces ≠ []) (number : Nat)
    (code text : List Char) :
    codeText (ofPieces number code [] (text.map SourcePiece.ofChar ++ pieces)) =
      code ++ (text ++ codeText (ofPieces number [] [] pieces)) := by
  -- Each character ends the line it is on, or is one more in the code of that line.
  induction text generalizing number code with
  | nil => simpa using codeText_front number code [] [] pieces
  | cons c text ih =>
    by_cases ended : c = '\n'
    · have more : ofPieces (number + 1) [] [] (text.map SourcePiece.ofChar ++ pieces) ≠ [] :=
        fun none => filled (List.append_eq_nil_iff.mp (eq_nil_of_ofPieces none).2.2).2
      have split := codeText_cons ⟨number, code, []⟩
        (ofPieces (number + 1) [] [] (text.map SourcePiece.ofChar ++ pieces))
      rw [if_neg more, ih, codeText_number] at split
      simpa [SourcePiece.ofChar, ended, ofPieces, codeText] using split
    · simpa [SourcePiece.ofChar, ended, ofPieces] using ih number (code ++ [c])

end SourceLine

/-- A declaration begins here: neither white space, nor an annotation, nor a comment. -/
structure BeginsDeclaration (first : Char) (rest : List Char) : Prop where
  visible : isSpacing first = false
  noAnnotation : first ≠ '@'
  noComment : first = '/' → ∀ c ∈ rest.head?, c ≠ '/' ∧ c ≠ '*'

section Declaration

variable {first : Char} {rest : List Char}

/-- The first character of a declaration is code. -/
theorem BeginsDeclaration.pieces_eq (begins : BeginsDeclaration first rest) :
    ∃ later, SourceState.code.pieces (first :: rest) = .code first :: later := by
  -- It is no line break and begins no comment, so it is read as code.
  have apart : first ≠ '\n' ∧ first ≠ '\r' := by
    constructor <;> (rintro rfl; exact absurd begins.visible (by decide))
  have noLine : ¬ (first = '/' ∧ rest.head? = some '/') := fun ⟨slash, next⟩ =>
    (begins.noComment slash '/' next).1 rfl
  have noBlock : ¬ (first = '/' ∧ rest.head? = some '*') := fun ⟨slash, next⟩ =>
    (begins.noComment slash '*' next).2 rfl
  rw [SourceState.pieces, if_neg apart.1, if_neg (by simp [apart.2]), SourceState.step,
    if_neg noLine, if_neg noBlock]
  split <;> exact ⟨_, rfl⟩

/-- The code of a declaration begins as the declaration does. -/
theorem BeginsDeclaration.codeText_eq (begins : BeginsDeclaration first rest) :
    ∃ later, SourceLine.codeText (SourceLine.ofText (first :: rest)) = first :: later := by
  -- Its first piece is code, which is kept at the front.
  obtain ⟨pieces, read⟩ := begins.pieces_eq
  have front := SourceLine.codeText_front 1 [first] [] [] pieces
  exact ⟨_, by simpa [SourceLine.ofText, read, SourceLine.ofPieces] using front⟩

/-- Code without comments stands in front of the code of a declaration. -/
theorem BeginsDeclaration.codeText_append (begins : BeginsDeclaration first rest)
    {glyphs : List Glyph} {text : List Char} (spelled : Glyph.Spells glyphs text (first :: rest)) :
    SourceLine.codeText (SourceLine.ofText (text ++ first :: rest)) =
      text ++ SourceLine.codeText (SourceLine.ofText (first :: rest)) := by
  -- The text in front is read as code, and the declaration behind it is not empty.
  obtain ⟨pieces, read⟩ := begins.pieces_eq
  have filled : SourceState.code.pieces (first :: rest) ≠ [] := by simp [read]
  have behind := SourceLine.codeText_map filled 1 [] text
  rwa [List.nil_append, ← spelled.pieces_eq] at behind

end Declaration

/-- The first character of code lies in no literal. -/
theorem Glyph.ofCode_cons (c : Char) (rest : List Char) :
    ∃ later, Glyph.ofCode (c :: rest) = Glyph.plain c :: later := by
  -- At the start no literal is open, so the character is one of code or opens one.
  simp only [ofCode, LiteralState.glyphs, LiteralState.step]
  split <;> exact ⟨_, rfl⟩

/-! Raw strings. -/

namespace Literal

/-- A text between triple quotes. -/
def renderRaw (content : List Char) : List Char :=
  tripleQuote ++ content ++ tripleQuote

/-- The raw string of a text, as code. -/
def rawGlyphs (content : List Char) : List Glyph :=
  tripleQuote.map Glyph.plain ++ (content.map Glyph.inside ++ tripleQuote.map Glyph.plain)

/-- What can stand between triple quotes as it is. -/
structure IsRaw (content : List Char) : Prop where
  unclosed : ¬ tripleQuote <:+: content
  noReturn : '\r' ∉ content

/-- Only the quotes of a raw string, and what stands for its contents, are seen of it. -/
theorem shown_raw {content : List Char} :
    ∀ glyph ∈ rawGlyphs content, glyph.shown ∈ ['"', ' ', '\n'] := by
  intro glyph member
  -- The quotes are seen as they are, and of the contents only the line breaks.
  have quotes : ∀ glyph ∈ tripleQuote.map Glyph.plain, glyph.shown ∈ ['"', ' ', '\n'] := by decide
  rcases List.mem_append.mp member with opening | member
  · exact quotes glyph opening
  · rcases List.mem_append.mp member with inside | closing
    · obtain ⟨c, -, rfl⟩ := List.mem_map.mp inside
      by_cases ended : c = '\n' <;> simp [Glyph.inside, Glyph.shown, ended]
    · exact quotes glyph closing

/-- A raw string is code in which brackets match. -/
theorem writes_raw {angled : Bool} {content rest : List Char} (raw : IsRaw content)
    (apart : ∀ d ∈ rest.head?, d ≠ '"') :
    Glyph.Writes angled false (rawGlyphs content) (renderRaw content) rest := by
  -- What is seen of it holds no bracket, no angle and no comma.
  have flat : ∀ c ∈ ['"', ' ', '\n'], Glyph.bracketOf c = .level ∧ c ≠ '<' ∧ c ≠ '>' ∧ c ≠ ',' := by
    decide
  refine ⟨?_, Glyph.balanced_of_flat fun glyph member => flat _ (shown_raw glyph member)⟩
  have spelled : Glyph.Spells _ ('"' :: '"' :: '"' :: (content ++ '"' :: '"' :: '"' :: [])) rest :=
    .raw raw.unclosed raw.noReturn apart .done
  simpa [rawGlyphs, renderRaw, tripleQuote] using spelled

/-- The contents of a raw string are read up to the last three of the quotes behind them. -/
theorem rawBody_inside (content : List Char) {rest : List Glyph}
    (apart : ∀ glyph ∈ rest.head?, glyph.shown ≠ '"') :
    rawBody (content.map Glyph.inside ++ (tripleQuote.map Glyph.plain ++ rest)) =
      some (content, rest) := by
  induction content with
  | nil =>
    cases rest with
    | nil => rfl
    | cons glyph rest =>
      -- No fourth quote follows, so these three end the string.
      have shown := apart glyph rfl
      simp [tripleQuote, rawBody, startsTriple, Glyph.plain, Glyph.shown] at shown ⊢
      simp [shown]
  | cons c content ih =>
    have hidden := AnnotationUse.inside_shown c
    -- What is inside of a literal is seen as a blank, and no quotes begin there.
    have goesOn : startsTriple (Glyph.inside c :: (content.map Glyph.inside ++
        (tripleQuote.map Glyph.plain ++ rest))) = false := by
      rw [startsTriple_eq]
      simp [tripleQuote, Glyph.shownText, List.isPrefixOf, Ne.symm hidden]
    rw [List.map_cons, List.cons_append, rawBody, goesOn, Bool.false_and, if_neg (by simp), ih]
    rfl

/-- A raw string has the value that stands in it. -/
theorem values_rawGlyphs (content : List Char) {rest : List Glyph}
    (apart : ∀ glyph ∈ rest.head?, glyph.shown ≠ '"') :
    values (rawGlyphs content ++ rest) = content :: values rest := by
  -- Three quotes begin a raw string, whose contents end at the three others.
  have triple : startsTriple (rawGlyphs content ++ rest) = true := by
    simp [rawGlyphs, tripleQuote, startsTriple, Glyph.plain, Glyph.shown]
  have shape : rawGlyphs content ++ rest = Glyph.plain '"' :: ([Glyph.plain '"', Glyph.plain '"'] ++
      (content.map Glyph.inside ++ (tripleQuote.map Glyph.plain ++ rest))) := by
    simp [rawGlyphs, tripleQuote]
  rw [shape] at triple ⊢
  rw [values_raw triple, show (2 : Nat) = [Glyph.plain '"', Glyph.plain '"'].length from rfl,
    List.drop_left, rawBody_inside content apart]

end Literal

/-! Arguments. -/

/-- An argument that is given by a name. -/
structure NamedArgument where
  /-- The white space in front of it. -/
  space : List Char
  name : List Char
  /-- The white space in front of the equals sign. -/
  gap : List Char
  /-- What stands behind the equals sign. -/
  value : List Char
deriving Repr, DecidableEq

namespace NamedArgument

/-- An argument as it is written up to its value. -/
def label (self : NamedArgument) : List Char :=
  self.space ++ (self.name ++ self.gap ++ ['='])

/-- An argument as it is written. -/
def text (self : NamedArgument) : List Char :=
  self.label ++ self.value

/-- An argument as it is written, as code. -/
def glyphs (self : NamedArgument) : List Glyph :=
  self.label.map Glyph.plain ++ Glyph.ofCode self.value

/-- An argument of another name than the main one, with code as its value. -/
structure IsFine (argument : NamedArgument) : Prop where
  space : IsSpace argument.space
  named : argument.name ≠ []
  word : ∀ c ∈ argument.name, isIdentifierChar c = true
  other : argument.name ≠ "value".toList
  gap : IsSpace argument.gap
  value : Glyph.IsCode false false argument.value
  single : argument.value.head? ≠ some '='

end NamedArgument

/-- How the text of a query is written. -/
inductive QueryText where
  /-- As string literals with plus signs between them. -/
  | joined (strings : List (List Char))
  /-- Between triple quotes. -/
  | raw (content : List Char)
deriving Repr, DecidableEq

namespace QueryText

/-- The text of a query as it is written. -/
def text : QueryText → List Char
  | .joined strings => " + ".toList.intercalate (strings.map Literal.render)
  | .raw content => Literal.renderRaw content

/-- The text of a query as it is written, as code. -/
def glyphs : QueryText → List Glyph
  | .joined strings => (" + ".toList.map Glyph.plain).intercalate (strings.map Literal.glyphs)
  | .raw content => Literal.rawGlyphs content

/-- The text that a query has. -/
def value : QueryText → List Char
  | .joined strings => strings.flatten
  | .raw content => content

/-- Some strings, or what triple quotes do not end in. -/
def IsFine : QueryText → Prop
  | .joined strings => strings ≠ []
  | .raw content => Literal.IsRaw content

end QueryText

/-- An annotation that gives the text of a query, maybe among other arguments. -/
structure QueryNote where
  before : List NamedArgument
  /-- The white space in front of the main argument. -/
  space : List Char
  /-- Whether the main argument is given by its name. -/
  isNamed : Bool
  query : QueryText
  /-- The white space behind the main argument. -/
  behind : List Char
  after : List NamedArgument
deriving Repr, DecidableEq

namespace QueryNote

/-- What stands in front of the text of the query. -/
def label (self : QueryNote) : List Char :=
  self.space ++ if self.isNamed then "value = ".toList else []

/-- The main argument as it is written. -/
def mainText (self : QueryNote) : List Char :=
  self.label ++ (self.query.text ++ self.behind)

/-- The main argument as it is written, as code. -/
def mainGlyphs (self : QueryNote) : List Glyph :=
  self.label.map Glyph.plain ++ (self.query.glyphs ++ self.behind.map Glyph.plain)

/-- The arguments that have a name of their own. -/
def named (self : QueryNote) : List NamedArgument :=
  self.before ++ self.after

/-- The annotation that is written. -/
def note (self : QueryNote) : AnnotationUse where
  name := "Query".toList
  args := some ([','].intercalate
    (self.before.map (·.text) ++ self.mainText :: self.after.map (·.text)))

/-- Each part of the annotation may be written. -/
structure IsFine (note : QueryNote) : Prop where
  named : ∀ argument ∈ note.named, argument.IsFine
  space : IsSpace note.space
  query : note.query.IsFine
  behind : IsSpace note.behind

end QueryNote

/-! What is written of arguments. -/

/-- White space is that in any other sense, too. -/
theorem IsSpace.isBlank {space : List Char} (spaced : IsSpace space) :
    ∀ c ∈ space, isBlank c = true := fun c member =>
  -- This white space is listed character by character, and each one is blank.
  Entity.isBlank_of_isSpacing (spaced c member).1

/-- Code that is written between commas. -/
def SplitsOff (code : List Glyph) (text : List Char) : Prop :=
  ∀ rest : List Char, (∀ c ∈ rest.head?, c ≠ '"' ∧ c ≠ '/' ∧ c ≠ '*') →
    Glyph.Writes false false code text rest

namespace NamedArgument

variable {self : NamedArgument}

/-- What stands in front of a value is written as it is. -/
theorem IsFine.isFlat (fine : self.IsFine) : ∀ c ∈ self.label, Glyph.IsFlat c := by
  intro c member
  simp only [label, List.mem_append, List.mem_singleton] at member
  -- Around the name there is only white space and the sign.
  rcases member with space | (name | gap) | rfl
  · exact fine.space.isFlat c space
  · exact isFlat_of_isIdentifierChar (fine.word c name)
  · exact fine.gap.isFlat c gap
  · decide

/-- An argument may stand between commas. -/
theorem IsFine.splitsOff (fine : self.IsFine) : SplitsOff self.glyphs self.text := fun _ apart =>
  -- The label is flat, and the value is written behind it.
  (Glyph.writes_flat _ fine.isFlat).append (fine.value.before apart)

/-- An argument is read by its name. -/
theorem IsFine.argumentName_eq (fine : self.IsFine) :
    AnnotationUse.argumentName self.glyphs = some self.name := by
  -- The value begins with no second equals sign, which would make the first one a comparison.
  have single : ∀ glyph ∈ (Glyph.ofCode self.value).head?, glyph.shown ≠ '=' := by
    cases given : self.value with
    | nil => simp [Glyph.ofCode, LiteralState.glyphs]
    | cons c value =>
      obtain ⟨later, read⟩ := Glyph.ofCode_cons c value
      have single := fine.single
      simpa [given, read, Glyph.plain, Glyph.shown] using single
  have shape : self.glyphs = self.space.map Glyph.plain ++
      ((self.name ++ self.gap).map Glyph.plain ++ Glyph.plain '=' :: Glyph.ofCode self.value) := by
    simp [glyphs, label]
  rw [shape, AnnotationUse.argumentName_spaced fine.space.isBlank,
    AnnotationUse.argumentName_named fine.named fine.word fine.gap.isBlank single]

/-- What a search sees of an argument is its value behind the first equals sign. -/
theorem IsFine.dropWhile_shown (fine : self.IsFine) :
    (Glyph.shownText self.glyphs).dropWhile (· != '=') =
      '=' :: Glyph.shownText (Glyph.ofCode self.value) := by
  -- Neither white space nor the characters of a name are an equals sign.
  have front : ∀ c ∈ self.space ++ (self.name ++ self.gap), (c != '=') = true := by
    have spaces {space : List Char} (spaced : IsSpace space) : ∀ c ∈ space, c ≠ '=' := by
      rintro c member rfl
      exact absurd (spaced '=' member).1 (by decide)
    intro c member
    simp only [List.mem_append] at member
    rw [bne_iff_ne]
    rcases member with space | name | gap
    · exact spaces fine.space c space
    · rintro rfl
      exact absurd (fine.word '=' name) (by decide)
    · exact spaces fine.gap c gap
  have shape : Glyph.shownText self.glyphs = (self.space ++ (self.name ++ self.gap)) ++
      '=' :: Glyph.shownText (Glyph.ofCode self.value) := by
    simp [glyphs, label, Glyph.shown_plain]
  rw [shape]
  exact dropWhile_stop front (by simp)

end NamedArgument

/-! Truth values. -/

/-- Code without quotes holds nothing that is hidden, whether they are looked for or seen. -/
theorem Glyph.Spells.eq_plain {glyphs : List Glyph} {text rest : List Char}
    (spelled : Spells glyphs text rest)
    (unquoted : ∀ c ∈ ['"', '\''], c ∉ shownText glyphs ∨ c ∉ text) :
    glyphs = text.map Glyph.plain := by
  induction spelled with
  | done => rfl
  | plain _ _ _ _ ih =>
    rw [List.map_cons, ih fun c listed => (unquoted c listed).imp
      (fun seen more => seen (List.mem_cons_of_mem _ more))
      (fun seen more => seen (List.mem_cons_of_mem _ more))]
  -- A literal has its quotes both in the text and in what is seen of it.
  | @literal quote body text rest glyphs isQuote =>
    have listed : quote ∈ ['"', '\''] := by simpa using isQuote
    rcases unquoted quote listed with seen | stands
    · exact absurd (by simp [shownText, Glyph.plain, shown]) seen
    · exact absurd (by simp) stands
  | raw =>
    rcases unquoted '"' (by simp) with seen | stands
    · exact absurd (by simp [shownText, Glyph.plain, shown]) seen
    · exact absurd (by simp) stands

/-- Code is seen to say a word without quotes where it says that word. -/
theorem Glyph.trim_shown {text word : List Char} (isCode : IsCode false false text)
    (unquoted : '"' ∉ word ∧ '\'' ∉ word) :
    trim (shownText (ofCode text)) = word ↔ trim text = word := by
  -- White space is all that is trimmed off, so a quote of the text would be one of the word.
  have apart {some : List Char} (trimmed : trim some = word) : ∀ c ∈ ['"', '\''], c ∉ some := by
    intro c listed member
    have visible : isBlank c = false := by
      have visible : ∀ d ∈ ['"', '\''], isBlank d = false := by decide
      exact visible c listed
    have inWord := mem_trim member visible
    rw [trimmed] at inWord
    simp only [List.mem_cons, List.not_mem_nil, or_false] at listed
    rcases listed with rfl | rfl
    · exact unquoted.1 inWord
    · exact unquoted.2 inWord
  have plain (code : ofCode text = text.map Glyph.plain) : shownText (ofCode text) = text := by
    simp [code]
  constructor
  · intro seen
    rwa [plain (isCode.spelled.eq_plain fun c listed => .inl (apart seen c listed))] at seen
  · intro written
    rwa [plain (isCode.spelled.eq_plain fun c listed => .inr (apart written c listed))]

/-! The text of a query. -/

namespace QueryText

variable {self : QueryText}

/-- The text of a query begins with a quote. -/
theorem IsFine.glyphs_eq (fine : self.IsFine) : ∃ later, self.glyphs = Glyph.plain '"' :: later := by
  -- Joined strings begin with the first one, and every literal with its quote.
  cases self with
  | joined strings =>
    obtain ⟨first, more, rfl⟩ := List.exists_cons_of_ne_nil fine
    cases more with
    | nil => exact ⟨_, List.intercalate_singleton⟩
    | cons second more =>
      rw [glyphs, List.map_cons, List.intercalate_cons_of_ne_nil (by simp)]
      exact ⟨_, rfl⟩
  | raw content => exact ⟨_, rfl⟩

/-- The text of a query is code in which brackets match. -/
theorem IsFine.splitsOff (fine : self.IsFine) : SplitsOff self.glyphs self.text := by
  intro rest apart
  -- Joined strings are literals with flat text in between.
  cases self with
  | joined strings =>
    refine Glyph.writes_intercalate (by decide) (fun rest => Glyph.writes_flat _ (by decide))
      (fun value _ rest apart => ?_) apart
    exact AnnotationUse.writes_literal value fun c first => (apart c first).1
  | raw content => exact Literal.writes_raw fine fun c first => (apart c first).1

/-- String literals with plus signs between them have the values that they are written for. -/
theorem values_joined {strings : List (List Char)} (filled : strings ≠ []) {rest : List Glyph}
    (apart : ∀ glyph ∈ rest.head?, glyph.shown ≠ '"') :
    Literal.values ((" + ".toList.map Glyph.plain).intercalate (strings.map Literal.glyphs) ++
      rest) = strings ++ Literal.values rest := by
  induction strings with
  | nil => exact absurd rfl filled
  | cons first more ih =>
    cases more with
    | nil => simpa using AnnotationUse.values_glyphs first apart
    | cons second more =>
      -- Nothing of the sign in between begins a literal.
      have sign : ∀ glyph ∈ " + ".toList.map Glyph.plain, glyph.shown ≠ '"' := by decide
      rw [List.map_cons, List.intercalate_cons_of_ne_nil (by simp), List.append_assoc,
        List.append_assoc, AnnotationUse.values_glyphs first (by simp [Glyph.plain, Glyph.shown]),
        AnnotationUse.values_append sign, ih (by simp)]
      rfl

/-- The literals of a query make up its text. -/
theorem IsFine.values_eq (fine : self.IsFine) {rest : List Glyph}
    (unquoted : ∀ glyph ∈ rest, glyph.shown ≠ '"') :
    ∃ literals, Literal.values (self.glyphs ++ rest) = literals ∧ literals ≠ [] ∧
      literals.flatten = self.value := by
  have nothing : Literal.values rest = [] := by
    have behind := AnnotationUse.values_append unquoted []
    rwa [List.append_nil, Literal.values] at behind
  have apart : ∀ glyph ∈ rest.head?, glyph.shown ≠ '"' := fun glyph first =>
    unquoted glyph (List.mem_of_mem_head? first)
  -- Several literals are joined by signs, and a raw one stands alone.
  cases self with
  | joined strings =>
    refine ⟨strings, ?_, fine, rfl⟩
    rw [glyphs, values_joined fine apart, nothing, List.append_nil]
  | raw content =>
    refine ⟨[content], ?_, by simp, by simp [value]⟩
    rw [glyphs, Literal.values_rawGlyphs content apart, nothing]

end QueryText

/-- The main value of an annotation is that of the first argument without another name. -/
theorem AnnotationUse.value_of_parts {self : AnnotationUse} {front back : List (List Glyph)}
    {main : List Glyph} {literals : List (List Char)} (parts : self.parts = front ++ main :: back)
    (others : ∀ part ∈ front, ∃ name, argumentName part = some name ∧ name ≠ "value".toList)
    (named : ∀ name ∈ argumentName main, name = "value".toList)
    (values : Literal.values main = literals) (filled : literals ≠ []) :
    self.value = some literals.flatten := by
  simp only [value, parts, List.find?_append, Option.bind_eq_bind]
  rw [List.find?_eq_none.mpr, Option.none_or, List.find?_cons_of_pos, Option.bind_some, values]
  -- The literals of the main argument are joined as soon as there is one.
  · cases literals with
    | nil => exact absurd rfl filled
    | cons first more => rfl
  · cases given : argumentName main with
    | none => rfl
    | some name => simpa using named name given
  -- No argument in front is the main one, as each has another name.
  · intro part member
    obtain ⟨name, given, other⟩ := others part member
    simpa [given] using other

/-! Annotations of queries. -/

namespace QueryNote

variable {self : QueryNote}

/-- The arguments of the annotation, as code and as they are written. -/
def written (self : QueryNote) : List (List Glyph × List Char) :=
  self.before.map (fun argument => (argument.glyphs, argument.text)) ++
    (self.mainGlyphs, self.mainText) ::
      self.after.map fun argument => (argument.glyphs, argument.text)

/-- What stands in front of the text of the query is written as it is. -/
theorem IsFine.isFlat (fine : self.IsFine) : ∀ c ∈ self.label, Glyph.IsFlat c := by
  intro c member
  -- In front there is white space, and the name of the argument if it is given.
  rcases List.mem_append.mp member with space | named
  · exact fine.space.isFlat c space
  · have flat : ∀ d ∈ "value = ".toList, Glyph.IsFlat d := by decide
    split at named
    · exact flat c named
    · cases named

/-- The main argument may stand between commas. -/
theorem IsFine.splitsOff (fine : self.IsFine) : SplitsOff self.mainGlyphs self.mainText := by
  intro rest apart
  refine (Glyph.writes_flat _ fine.isFlat).append
    (Glyph.Writes.append (fine.query.splitsOff _ fun c first => ?_)
      (Glyph.writes_flat _ fine.behind.isFlat))
  -- What stands behind the literals is the next argument, unless there is white space.
  cases blank : self.behind with
  | nil => exact apart c (by simpa [blank] using first)
  | cons d behind =>
    obtain rfl : d = c := by simpa [blank] using first
    have flat := fine.behind.isFlat d (by simp [blank])
    have apart : d ≠ '*' := by
      rintro rfl
      exact absurd (fine.behind '*' (by simp [blank])).1 (by decide)
    simp_all [Glyph.IsFlat]

/-- Each argument may stand between commas. -/
theorem IsFine.splitsOff_written (fine : self.IsFine) :
    ∀ argument ∈ self.written, SplitsOff argument.1 argument.2 := by
  -- The query stands among its named arguments, and each of them splits off.
  have named : ∀ argument ∈ self.named, SplitsOff argument.glyphs argument.text :=
    fun argument member => (fine.named argument member).splitsOff
  simp only [written, QueryNote.named, List.mem_append, List.mem_cons, List.mem_map] at named ⊢
  rintro pair (⟨argument, member, rfl⟩ | rfl | ⟨argument, member, rfl⟩)
  · exact named argument (.inl member)
  · exact fine.splitsOff
  · exact named argument (.inr member)

/-- The arguments are code in which brackets match. -/
theorem IsFine.writes_args (fine : self.IsFine) :
    Glyph.Writes false true ([Glyph.plain ','].intercalate (self.written.map (·.1)))
      ([','].intercalate (self.written.map (·.2))) [] := by
  -- Each argument is balanced, and so is the comma between two.
  have comma (rest : List Char) : Glyph.Writes false true [Glyph.plain ','] [','] rest :=
    ⟨.plain (by decide) (by decide) (by simp) .done, .level (by decide) (by simp) (fun _ => rfl) .nil⟩
  exact @Glyph.writes_intercalate false true _ self.written _ _ ',' [] [] (by decide) comma
    (fun argument member rest apart =>
      (fine.splitsOff_written argument member rest apart).withCommas) (by simp)

/-- The arguments of the annotation are those that are written. -/
theorem note_args (self : QueryNote) :
    self.note.args = some ([','].intercalate (self.written.map (·.2))) := by
  simp [note, written, Function.comp_def]

/-- The annotation can be written. -/
theorem IsFine.isWritten (fine : self.IsFine) : self.note.IsWritten false where
  -- The name is a plain word, and the arguments are those just written.
  named := by simp [note]
  plain := by simp only [note]; decide
  args := by
    rintro args given
    rw [note_args] at given
    obtain rfl := Option.some.inj given
    rw [Glyph.IsCode, fine.writes_args.spelled.ofCode_eq]
    exact fine.writes_args

/-- The parts of the annotation are its arguments. -/
theorem IsFine.parts_eq (fine : self.IsFine) :
    self.note.short.parts = self.written.map (·.1) := by
  -- No comma lies at the top level of an argument, so the text is cut between them alone.
  have balanced : ∀ part ∈ self.written.map (·.1), Glyph.Balanced false false part := by
    intro part member
    obtain ⟨argument, isArgument, rfl⟩ := List.mem_map.mp member
    exact (fine.splitsOff_written argument isArgument [] (by simp)).balanced
  have given : self.note.short.args = self.note.args := rfl
  simp only [AnnotationUse.parts, given, note_args, fine.writes_args.spelled.ofCode_eq]
  exact Glyph.splitTop_intercalate (by simp [written]) balanced

/-- A literal by itself is given by no name. -/
theorem argumentName_quote (rest : List Glyph) :
    AnnotationUse.argumentName (Glyph.plain '"' :: rest) = none := by
  -- A quote is no white space and no part of a name, so the name is empty.
  have start : trimStart (Glyph.shownText (Glyph.plain '"' :: rest)) =
      '"' :: Glyph.shownText rest := List.dropWhile_cons_of_neg (p := isBlank) (by decide)
  have nothing : ('"' :: Glyph.shownText rest).takeWhile isIdentifierChar = [] :=
    List.takeWhile_cons_of_neg (by decide)
  simp only [AnnotationUse.argumentName, start, nothing, List.isEmpty_nil, if_true]

/-- The main argument is given by no name but its own. -/
theorem IsFine.argumentName_eq (fine : self.IsFine) :
    AnnotationUse.argumentName self.mainGlyphs =
      if self.isNamed then some "value".toList else none := by
  obtain ⟨later, quote⟩ := fine.query.glyphs_eq
  have shape : self.mainGlyphs = self.space.map Glyph.plain ++
      ((if self.isNamed then "value = ".toList else []).map Glyph.plain ++
        Glyph.plain '"' :: (later ++ self.behind.map Glyph.plain)) := by
    rw [mainGlyphs, label, List.map_append, quote, List.cons_append, List.append_assoc]
  rw [shape, AnnotationUse.argumentName_spaced fine.space.isBlank]
  -- Without a name, the quote of the literal comes first.
  cases self.isNamed with
  | false => exact argumentName_quote _
  | true =>
    have word : "value = ".toList = ("value".toList ++ [' ']) ++ ['=', ' '] := by decide
    rw [if_pos rfl, word, List.map_append, List.append_assoc]
    exact @AnnotationUse.argumentName_named "value".toList [' '] (by decide) (by decide) (by decide)
      (Glyph.plain ' ' :: Glyph.plain '"' :: (later ++ self.behind.map Glyph.plain))
      (by simp [Glyph.plain, Glyph.shown])

/-- The main value of the annotation is the text of the query. -/
theorem IsFine.value_eq (fine : self.IsFine) : self.note.short.value = some self.query.value := by
  -- The white space around the literals adds none to them.
  have unquoted {text : List Char} (flat : ∀ c ∈ text, Glyph.IsFlat c) :
      ∀ glyph ∈ text.map Glyph.plain, glyph.shown ≠ '"' := by
    intro glyph member
    obtain ⟨c, isChar, rfl⟩ := List.mem_map.mp member
    rintro rfl
    exact absurd (flat _ isChar) (by decide)
  obtain ⟨literals, values, filled, whole⟩ := fine.query.values_eq (unquoted fine.behind.isFlat)
  have values : Literal.values self.mainGlyphs = literals := by
    rw [mainGlyphs, AnnotationUse.values_append (unquoted fine.isFlat), values]
  have parts : self.note.short.parts = self.before.map (·.glyphs) ++
      self.mainGlyphs :: self.after.map (·.glyphs) := by
    simp [fine.parts_eq, written, Function.comp_def]
  rw [← whole]
  refine AnnotationUse.value_of_parts parts (fun part member => ?_) (fun name given => ?_) values
    filled
  · obtain ⟨argument, isBefore, rfl⟩ := List.mem_map.mp member
    have fine := fine.named argument (List.mem_append_left _ isBefore)
    exact ⟨argument.name, fine.argumentName_eq, fine.other⟩
  · rw [fine.argumentName_eq] at given
    split at given
    · exact (Option.some.inj given).symm
    · cases given

/-- An argument of a name of its own is set if it is given that value. -/
theorem IsFine.flag_iff (fine : self.IsFine) {name : List Char} (other : name ≠ "value".toList) :
    self.note.short.flag name = true ↔
      ∃ argument ∈ self.named, argument.name = name ∧ trim argument.value = "true".toList := by
  have truth : ∀ argument ∈ self.named, argument.IsFine ∧
      (trim (Glyph.shownText (Glyph.ofCode argument.value)) = "true".toList ↔
        trim argument.value = "true".toList) := fun argument member =>
    ⟨fine.named argument member, Glyph.trim_shown (fine.named argument member).value (by decide)⟩
  -- The main argument sets nothing, since it has another name or none.
  have main : (AnnotationUse.argumentName self.mainGlyphs == some name) = false := by
    rw [fine.argumentName_eq]
    cases self.isNamed with
    | false => rfl
    | true => simpa using Ne.symm other
  simp only [AnnotationUse.flag, fine.parts_eq, written, List.map_append, List.map_cons,
    List.map_map, List.any_append, List.any_cons, List.any_map, Function.comp_def, main,
    Bool.false_and, Bool.false_or, Bool.or_eq_true, List.any_eq_true, Bool.and_eq_true, beq_iff_eq]
  rw [QueryNote.named] at truth ⊢
  simp only [← exists_or, ← or_and_right, ← List.mem_append]
  -- For each of the others, the name and the value are those it is written with.
  refine exists_congr fun argument => and_congr_right fun member => ?_
  obtain ⟨fine, truth⟩ := truth argument member
  rw [fine.argumentName_eq, fine.dropWhile_shown, Option.some_inj]
  exact and_congr_right fun _ => beq_iff_eq.trans truth

/--
The text of a query is read as it was written, wherever it stands among the arguments.

Comments are left out of the source and literals hidden in the code. What is read is one annotation,
up to the declaration behind it. Its main value is the text of the query, and a flag is set if an
argument says so.
-/
theorem leading_query (self : QueryNote) (fine : self.IsFine) {gap rest : List Char} {first : Char}
    (spaced : IsSpace gap) (begins : BeginsDeclaration first rest) :
    let code := SourceLine.codeText (SourceLine.ofText (self.note.render ++ (gap ++ first :: rest)))
    let declaration := SourceLine.codeText (SourceLine.ofText (first :: rest))
    ∃ use : AnnotationUse,
      code = (self.note.render ++ gap) ++ declaration ∧ declaration.head? = some first ∧
      AnnotationUse.leading (Glyph.ofCode code) = ([use], Glyph.ofCode declaration) ∧
      AnnotationUse.leading? (Glyph.ofCode code) = some ([use], width (self.note.render ++ gap)) ∧
      use.name = "Query".toList ∧ use.value = some self.query.value ∧
      (use.flag "nativeQuery".toList = true ↔ ∃ argument ∈ self.named,
        argument.name = "nativeQuery".toList ∧ trim argument.value = "true".toList) := by
  intro code declaration
  have writes (rest : List Char) : Glyph.Writes false false
      (self.note.glyphs ++ gap.map Glyph.plain) (self.note.render ++ gap) rest :=
    (AnnotationUse.writes_render fine.isWritten _).append (Glyph.writes_flat _ spaced.isFlat)
  -- The declaration behind is where the code of the annotation ends.
  have whole : code = (self.note.render ++ gap) ++ declaration := by
    have behind := begins.codeText_append (writes _).spelled
    rwa [List.append_assoc] at behind
  obtain ⟨later, starts⟩ : ∃ later, declaration = first :: later := begins.codeText_eq
  have glyphs : Glyph.ofCode code =
      (self.note.glyphs ++ gap.map Glyph.plain) ++ Glyph.ofCode declaration := by
    rw [whole, Glyph.ofCode, (writes _).spelled.glyphs_eq]
    rfl
  have read : AnnotationUse.leading (Glyph.ofCode code) =
      ([self.note.short], Glyph.ofCode declaration) := by
    have gapSpaced : ∀ glyph ∈ gap.map Glyph.plain, isSpacing glyph.shown = true := by
      intro glyph member
      obtain ⟨c, isChar, rfl⟩ := List.mem_map.mp member
      exact (spaced c isChar).1
    obtain ⟨behind, code⟩ := Glyph.ofCode_cons first later
    have visible : isSpacing (Glyph.plain first).shown = false := begins.visible
    rw [glyphs, List.append_assoc,
      AnnotationUse.leading_glyphs fine.isWritten fun none => by simp [note] at none,
      AnnotationUse.leading_spaced gapSpaced, starts, code,
      AnnotationUse.leading_plain visible begins.noAnnotation]
  -- The offset is the width of the part of the code that is taken off in front.
  have offset : AnnotationUse.leading? (Glyph.ofCode code) =
      some ([self.note.short], width (self.note.render ++ gap)) := by
    obtain ⟨taken, divided, found⟩ := AnnotationUse.leading?_eq (Glyph.ofCode code)
    rw [read] at divided found
    obtain rfl : self.note.glyphs ++ gap.map Glyph.plain = taken :=
      List.append_cancel_right (glyphs.symm.trans divided)
    rw [found, ← (writes []).spelled.text_eq, width_text]
  exact ⟨self.note.short, whole, by rw [starts]; rfl, read, offset, rfl, fine.value_eq,
    fine.flag_iff (by decide)⟩

/-- A native query between the query that counts its rows and the flag that says it is native. -/
def countedQuery : QueryNote where
  before := [⟨[], "countQuery".toList, [' '], ' ' :: Literal.render "a\"),".toList⟩]
  space := [' ']
  isNamed := true
  query := .joined ["a \"// ".toList, "\\, [\n = )".toList]
  behind := ['\n']
  after := [⟨[' '], "nativeQuery".toList, [' '], " true".toList⟩]

/-- Neither quotes, brackets and commas nor slashes in the texts keep them from being read. -/
theorem leading_query_counted :
    countedQuery.IsFine ∧ IsSpace "\n  ".toList ∧ BeginsDeclaration 'f' "un a()".toList ∧
      ∃ use : AnnotationUse,
        AnnotationUse.leading (Glyph.ofCode (SourceLine.codeText (SourceLine.ofText
          (countedQuery.note.render ++ ("\n  ".toList ++ "fun a()".toList))))) =
            ([use], Glyph.ofCode "fun a()".toList) ∧
        use.name = "Query".toList ∧ use.value = some "a \"// \\, [\n = )".toList ∧
        use.flag "nativeQuery".toList = true := by
  have literal : Glyph.Writes false false
      (Glyph.plain ' ' :: Literal.glyphs "a\"),".toList) (' ' :: Literal.render "a\"),".toList) [] :=
    (Glyph.writes_flat [' '] (by decide)).append (AnnotationUse.writes_literal _ (by simp))
  -- The bracket and the comma in the literal end neither the argument nor the list.
  have count : Glyph.IsCode false false (' ' :: Literal.render "a\"),".toList) := by
    rwa [Glyph.IsCode, literal.spelled.ofCode_eq]
  have fine : countedQuery.IsFine := by
    refine ⟨fun argument member => ?_, by decide, List.cons_ne_nil _ _, by decide⟩
    simp only [countedQuery, named, List.cons_append, List.nil_append, List.mem_cons,
      List.not_mem_nil, or_false] at member
    rcases member with rfl | rfl
    · exact ⟨by decide, by decide, by decide, by decide, by decide, count, by decide⟩
    · exact ⟨by decide, by decide, by decide, by decide, by decide,
        Glyph.isCode_flat (by decide), by decide⟩
  have spaced : IsSpace "\n  ".toList := by decide
  have begins : BeginsDeclaration 'f' "un a()".toList := ⟨by decide, by decide, by decide⟩
  obtain ⟨use, -, -, read, -, name, value, flag⟩ := leading_query countedQuery fine spaced begins
  refine ⟨fine, spaced, begins, use, read, name, value, flag.mpr ?_⟩
  exact ⟨⟨[' '], "nativeQuery".toList, [' '], " true".toList⟩, by simp [countedQuery, named],
    rfl, by decide +kernel⟩

end QueryNote

end IndexAudit
