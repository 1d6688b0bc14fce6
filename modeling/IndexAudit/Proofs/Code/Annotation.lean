import IndexAudit.Code.AnnotationUse
import IndexAudit.Proofs.Code.Nesting
import IndexAudit.Proofs.Code.Spelling
import IndexAudit.Proofs.Text.Blank

/-!
Annotations are read as they are written.

An annotation is written as its full name behind an at sign, with its arguments in round brackets
if it has any. What is read of the name is its last part.
-/

namespace IndexAudit

namespace Glyph

/-- Code in front of the rest of a text, in which brackets match. -/
structure Writes (angled commas : Bool) (code : List Glyph) (text rest : List Char) : Prop where
  spelled : Spells code text rest
  balanced : Balanced angled commas code

/-- A text is code in which brackets match. -/
abbrev IsCode (angled commas : Bool) (text : List Char) : Prop :=
  Writes angled commas (ofCode text) text []

/-- A character that begins neither a literal nor a comment and is no bracket, angle or comma. -/
def IsFlat (c : Char) : Prop :=
  c ∉ ['"', '\'', '\r', '/', '(', '[', '{', ')', ']', '}', '<', '>', ',']

instance (c : Char) : Decidable (IsFlat c) :=
  inferInstanceAs (Decidable (_ ∉ _))

variable {angled commas : Bool}

/-- Code in front of other code is written with it. -/
theorem Writes.append {front back : List Glyph} {first second rest : List Char}
    (before : Writes angled commas front first (second ++ rest))
    (behind : Writes angled commas back second rest) :
    Writes angled commas (front ++ back) (first ++ second) rest :=
  -- Both are spelled and balanced, each in front of what stands behind it.
  ⟨before.spelled.append behind.spelled, before.balanced.append behind.balanced⟩

/-- Code is written whether commas are allowed outside its brackets or not. -/
theorem Writes.withCommas {code : List Glyph} {text rest : List Char}
    (writes : Writes angled commas code text rest) : Writes angled true code text rest :=
  ⟨writes.spelled, writes.balanced.withCommas⟩

/-- Pieces of code are written one behind the other. -/
theorem writes_flatMap {α : Type} {items : List α} {code : α → List Glyph} {text : α → List Char}
    (each : ∀ item ∈ items, ∀ rest, Writes angled commas (code item) (text item) rest)
    (rest : List Char) : Writes angled commas (items.flatMap code) (items.flatMap text) rest := by
  induction items with
  | nil => exact ⟨.done, .nil⟩
  | cons item items ih =>
    -- Each piece is written whatever stands behind it, so also in front of the others.
    obtain ⟨here, later⟩ := List.forall_mem_cons.mp each
    exact (here _).append (ih later)

/-- Pieces of code are written with a separator between them that joins none of them to it. -/
theorem writes_intercalate {α : Type} {items : List α} {code : α → List Glyph}
    {text : α → List Char} {separator : Char} {between rest : List Char}
    (joins : separator ≠ '"' ∧ separator ≠ '/' ∧ separator ≠ '*')
    (writes : ∀ rest, Writes angled commas ((separator :: between).map plain)
      (separator :: between) rest)
    (each : ∀ item ∈ items, ∀ rest : List Char, (∀ c ∈ rest.head?, c ≠ '"' ∧ c ≠ '/' ∧ c ≠ '*') →
      Writes angled commas (code item) (text item) rest)
    (apart : ∀ c ∈ rest.head?, c ≠ '"' ∧ c ≠ '/' ∧ c ≠ '*') :
    Writes angled commas (((separator :: between).map plain).intercalate (items.map code))
      ((separator :: between).intercalate (items.map text)) rest := by
  induction items with
  | nil => exact ⟨.done, .nil⟩
  | cons item items ih =>
    obtain ⟨here, later⟩ := List.forall_mem_cons.mp each
    -- Only between two of them is a separator, which then is what follows the first.
    cases items with
    | nil => simpa using here rest apart
    | cons next items =>
      have divided {β : Type} (between first second : List β) (more : List (List β)) :
          between.intercalate (first :: second :: more) =
            first ++ (between ++ between.intercalate (second :: more)) := by
        rw [List.intercalate_cons_of_ne_nil (by simp), List.append_assoc]
      change Writes angled commas (List.intercalate _ (code item :: code next :: items.map code))
        (List.intercalate _ (text item :: text next :: items.map text)) rest
      rw [divided, divided]
      exact (here _ (by simpa using joins)).append ((writes _).append (ih later))

/-- Flat characters are written as they are. -/
theorem writes_flat (text : List Char) {rest : List Char} (flat : ∀ c ∈ text, IsFlat c) :
    Writes angled false (text.map plain) text rest := by
  constructor
  · -- No flat character begins a comment or a string, so each spells itself.
    refine spells_plain text fun c member => ?_
    have flat := flat c member
    simp_all [IsFlat]
  · refine balanced_of_flat fun glyph member => ?_
    obtain ⟨c, isChar, rfl⟩ := List.mem_map.mp member
    have flat := flat c isChar
    simp_all [IsFlat, plain, shown, bracketOf]

/-- Code by itself is written in front of anything that joins it to no comment and no string. -/
theorem Writes.before {code : List Glyph} {text rest : List Char}
    (writes : Writes angled commas code text [])
    (apart : ∀ c ∈ rest.head?, c ≠ '"' ∧ c ≠ '/' ∧ c ≠ '*') :
    Writes angled commas code text rest :=
  -- Only the next character could join the code to a comment or a string.
  ⟨writes.spelled.congr fun c first => .inr (apart c first), writes.balanced⟩

/-- Flat characters are code by themselves. -/
theorem isCode_flat {text : List Char} (flat : ∀ c ∈ text, IsFlat c) :
    IsCode angled false text := by
  -- Flat text is seen as it is written.
  have writes : Writes angled false (text.map plain) text [] := writes_flat text flat
  rwa [IsCode, writes.spelled.ofCode_eq]

/-- Code in brackets is written as it is. -/
theorem writes_group {opens closes : Char} {inner rest : List Char}
    (pair : (opens, closes) ∈ [('(', ')'), ('[', ']'), ('{', '}')])
    (isCode : IsCode angled true inner) :
    Writes angled commas (plain opens :: (ofCode inner ++ [plain closes]))
      (opens :: (inner ++ [closes])) rest := by
  -- No bracket is a character that the code around it could take for something else.
  have listed : ∀ pair ∈ [('(', ')'), ('[', ']'), ('{', '}')],
      (pair.1 ≠ '"' ∧ pair.1 ≠ '\'' ∧ pair.1 ≠ '\r' ∧ pair.1 ≠ '/') ∧ pair.2 ≠ '"' ∧
        pair.2 ≠ '\'' ∧ pair.2 ≠ '\r' ∧ pair.2 ≠ '/' ∧ pair.2 ≠ '*' := by decide
  obtain ⟨⟨noString, noChar, noReturn, noSlash⟩, noStringEnd, noCharEnd, noReturnEnd, noSlashEnd,
    noStar⟩ := listed _ pair
  have inside : Writes angled true (ofCode inner) inner (closes :: rest) :=
    isCode.before fun c first => by
      obtain rfl : closes = c := by simpa using first
      exact ⟨noStringEnd, noSlashEnd, noStar⟩
  have closing : Spells [plain closes] [closes] rest :=
    .plain ⟨noStringEnd, noCharEnd⟩ noReturnEnd (fun slash => absurd slash noSlashEnd) .done
  exact ⟨.plain ⟨noString, noChar⟩ noReturn (fun slash => absurd slash noSlash)
    (inside.spelled.append closing), .group pair inside.balanced .nil⟩

end Glyph

/-- White space that may stand between parts of code, if there is any. -/
def IsSpace (space : List Char) : Prop :=
  ∀ c ∈ space, isSpacing c = true ∧ c ≠ '\r'

instance (space : List Char) : Decidable (IsSpace space) :=
  inferInstanceAs (Decidable (∀ c ∈ space, _))

/-- White space is written as it is. -/
theorem IsSpace.isFlat {space : List Char} (spaced : IsSpace space) :
    ∀ c ∈ space, Glyph.IsFlat c := by
  intro c member
  -- A character of spacing is one of five, and only the carriage return is not flat.
  obtain ⟨spacing, noReturn⟩ := spaced c member
  simp only [isSpacing, Bool.or_eq_true, decide_eq_true_eq] at spacing
  rcases spacing with (((is | is) | is) | is) | is
  case inr => exact absurd is noReturn
  all_goals rw [is]; decide

/-- A character of an identifier is flat. -/
theorem isFlat_of_isIdentifierChar {c : Char} (word : isIdentifierChar c = true) :
    Glyph.IsFlat c := by
  intro listed
  -- None of the characters that mean something to a search is part of an identifier.
  have apart : ∀ d ∈ ['"', '\'', '\r', '/', '(', '[', '{', ')', ']', '}', '<', '>', ','],
      isIdentifierChar d = false := by decide
  rw [apart c listed] at word
  cases word

namespace AnnotationUse

/-- An annotation as it is written, its full name given. -/
def render (self : AnnotationUse) : List Char :=
  '@' :: (self.name ++ match self.args with
    | none => []
    | some args => '(' :: (args ++ [')']))

/-- An annotation as it is written, as code. -/
def glyphs (self : AnnotationUse) : List Glyph :=
  Glyph.plain '@' :: (self.name.map Glyph.plain ++ match self.args with
    | none => []
    | some args => Glyph.plain '(' :: (Glyph.ofCode args ++ [Glyph.plain ')']))

/-- An annotation as it is read. -/
def short (self : AnnotationUse) : AnnotationUse :=
  { self with name := simpleName self.name }

/-- An annotation can be written: it has a name, and brackets match in its arguments. -/
structure IsWritten (angled : Bool) (note : AnnotationUse) : Prop where
  named : note.name ≠ []
  plain : ∀ c ∈ note.name, isNameChar c = true
  args : ∀ args ∈ note.args, Glyph.IsCode angled true args

/-- What comes behind an annotation goes on with neither its name nor its arguments. -/
structure Ends (rest : List Glyph) : Prop where
  name : ∀ glyph ∈ rest.head?, isNameChar glyph.shown = false
  args : ∀ glyph ∈ (skipSpacing rest).head?, glyph.shown ≠ '('

end AnnotationUse

namespace AnnotationUse

variable {angled : Bool} {self : AnnotationUse}

/-- A character of a name is flat. -/
theorem isFlat_of_isNameChar {c : Char} (named : isNameChar c = true) : Glyph.IsFlat c := by
  intro listed
  -- None of the characters that mean something to a search is part of a name.
  have apart : ∀ d ∈ ['"', '\'', '\r', '/', '(', '[', '{', ')', ']', '}', '<', '>', ','],
      isNameChar d = false := by decide
  simp [apart c listed] at named

/-- A written annotation is code in which brackets match. -/
theorem writes_render (written : IsWritten angled self) (rest : List Char) :
    Glyph.Writes angled false self.glyphs self.render rest := by
  -- The name has flat characters, and the arguments are a group of their own.
  have name {behind : List Char} :
      Glyph.Writes angled false (self.name.map Glyph.plain) self.name behind :=
    Glyph.writes_flat _ fun c member => isFlat_of_isNameChar (written.plain c member)
  refine (Glyph.writes_flat ['@'] (by decide)).append ?_
  cases given : self.args with
  | none => simpa using name
  | some args => exact name.append (Glyph.writes_group (by decide) (written.args args given))

/-- The arguments of an annotation are read from behind its name. -/
theorem readArguments_append (written : IsWritten angled self) {rest : List Glyph}
    (ends : self.args = none → Ends rest) :
    readArguments ((match self.args with
      | none => []
      | some args => Glyph.plain '(' :: (Glyph.ofCode args ++ [Glyph.plain ')'])) ++ rest) =
      (self.args, rest) := by
  -- Without arguments the code behind must not open a bracket of its own.
  cases given : self.args with
  | none =>
    rw [List.nil_append, readArguments]
    split
    · rfl
    · rename_i glyph more start
      have apart := (ends given).args glyph (by simp [start])
      rw [if_neg apart]
  | some args =>
    obtain ⟨spelled, balanced⟩ := written.args args given
    have text : Glyph.text (Glyph.ofCode args) = args := spelled.text_eq
    have close := Glyph.closeIndex_group '(' ')' (by decide) balanced rest
    have spaced : skipSpacing (Glyph.plain '(' :: (Glyph.ofCode args ++ Glyph.plain ')' :: rest)) =
        Glyph.plain '(' :: (Glyph.ofCode args ++ Glyph.plain ')' :: rest) :=
      List.dropWhile_cons_of_neg (by decide)
    simp only [List.cons_append, List.append_assoc, List.nil_append, readArguments, spaced, close]
    simp [Glyph.plain, Glyph.shown, text]

/-- A written annotation is read up to what follows it; arguments end by themselves. -/
theorem read?_glyphs (written : IsWritten angled self) {rest : List Glyph}
    (ends : self.args = none → Ends rest) :
    read? (self.glyphs ++ rest) = some (self.short, rest) := by
  generalize behind : (match self.args with
      | none => []
      | some args => Glyph.plain '(' :: (Glyph.ofCode args ++ [Glyph.plain ')'])) ++ rest = after
  have shape : self.glyphs ++ rest = Glyph.plain '@' :: (self.name.map Glyph.plain ++ after) := by
    rw [← behind, glyphs, List.cons_append, List.append_assoc]
  have arguments := readArguments_append written ends
  rw [behind] at arguments
  -- What comes behind the name is a bracket, or does not go on with the name.
  have stop : ∀ glyph ∈ after.head?, isNameChar glyph.shown = false := by
    rw [← behind]
    cases given : self.args with
    | none => exact (ends given).name
    | some args =>
      intro glyph first
      obtain rfl : Glyph.plain '(' = glyph := by simpa using first
      rfl
  have name : (self.name.map Glyph.plain ++ after).takeWhile (fun g => isNameChar g.shown) =
      self.name.map Glyph.plain := by
    rw [List.takeWhile_append_of_pos fun glyph member => by
      obtain ⟨c, isChar, rfl⟩ := List.mem_map.mp member
      exact written.plain c isChar]
    cases after with
    | nil => simp
    | cons glyph more => simp [stop glyph rfl]
  have shown : Glyph.shownText (self.name.map Glyph.plain) = self.name := Glyph.shownText_plain _
  have filled : self.name.map Glyph.plain ≠ [] := by simpa using written.named
  rw [shape, read?]
  simp only [name, shown, List.drop_left, arguments]
  rw [if_pos ⟨rfl, filled⟩]
  rfl

/-- Annotations are read one by one, with white space in front of each. -/
theorem leading_eq (code : List Glyph) :
    leading code = match read? (skipSpacing code) with
      | none => ([], skipSpacing code)
      | some (first, after) => (first :: (leading after).1, (leading after).2) := by
  -- This is the equation of the recursion, without the proof that what follows is shorter.
  rw [leading.eq_def]
  split <;> simp_all

/-- White space in front of annotations is passed over. -/
theorem leading_spaced {gap : List Glyph} (spaced : ∀ glyph ∈ gap, isSpacing glyph.shown = true)
    (code : List Glyph) : leading (gap ++ code) = leading code := by
  -- Spacing is skipped before anything is read, however much of it there is.
  have same : skipSpacing (gap ++ code) = skipSpacing code :=
    List.dropWhile_append_of_pos spaced
  rw [leading_eq, leading_eq code, same]

/-- A written annotation comes in front of the annotations behind it. -/
theorem leading_glyphs (written : IsWritten angled self) {rest : List Glyph}
    (ends : self.args = none → Ends rest) :
    leading (self.glyphs ++ rest) = (self.short :: (leading rest).1, (leading rest).2) := by
  -- The sign is no spacing, so the annotation is read at once, and the others behind it.
  have spaced : skipSpacing (self.glyphs ++ rest) = self.glyphs ++ rest :=
    List.dropWhile_cons_of_neg (by decide)
  rw [leading_eq, spaced, read?_glyphs written ends]

/-- Code that begins with neither white space nor an at sign has no annotations. -/
theorem leading_plain {glyph : Glyph} (visible : isSpacing glyph.shown = false)
    (apart : glyph.shown ≠ '@') (rest : List Glyph) :
    leading (glyph :: rest) = ([], glyph :: rest) := by
  -- Nothing is skipped, and without a sign nothing is read.
  have spaced : skipSpacing (glyph :: rest) = glyph :: rest :=
    List.dropWhile_cons_of_neg (by simp [visible])
  have nothing : read? (glyph :: rest) = none := by simp [read?, apart]
  rw [leading_eq, spaced, nothing]

/-! Runs of annotations. -/

/-- No arguments of an annotation begin here. -/
def Begins (rest : List Glyph) : Prop :=
  ∀ glyph ∈ (skipSpacing rest).head?, glyph.shown ≠ '('

/-- Code consists of annotations, and of white space between them and behind them. -/
structure Leads (code : List Glyph) (notes : List AnnotationUse) : Prop where
  reads : ∀ rest, Begins rest →
    leading (code ++ rest) = (notes ++ (leading rest).1, (leading rest).2)
  begins : ∀ rest, Begins rest → Begins (code ++ rest)

/-- There are no annotations in no code. -/
theorem leads_nil : Leads [] [] where
  -- Nothing is read and nothing is passed, so what follows begins as before.
  reads _ _ := rfl
  begins _ begins := begins

/-- The annotations of two runs are read one behind the other. -/
theorem Leads.append {front back : List Glyph} {first second : List AnnotationUse}
    (before : Leads front first) (behind : Leads back second) :
    Leads (front ++ back) (first ++ second) where
  -- The first run is read in front of the second one, which begins as a run may.
  reads rest begins := by
    rw [List.append_assoc, before.reads _ (behind.begins rest begins), behind.reads rest begins,
      List.append_assoc]
  begins rest begins := by
    rw [List.append_assoc]
    exact before.begins _ (behind.begins rest begins)

/-- A run of annotations by itself is read as them. -/
theorem Leads.alone {code : List Glyph} {notes : List AnnotationUse} (leads : Leads code notes) :
    leading code = (notes, []) := by
  -- Nothing stands behind the run, so nothing is left.
  have nothing : leading [] = ([], []) := leading_eq []
  simpa [nothing] using leads.reads [] (by simp [Begins, skipSpacing])

/-- A run of annotations begins with the sign of one behind white space. -/
theorem Leads.starts {code : List Glyph} {notes : List AnnotationUse} (leads : Leads code notes) :
    ∀ glyph ∈ (skipSpacing code).head?, glyph.shown = '@' := by
  intro glyph first
  have alone := leads.alone
  obtain ⟨more, start⟩ := List.head?_eq_some_iff.mp first
  rw [leading_eq, start] at alone
  -- A run by itself leaves nothing, and without a sign its first glyph would be left.
  by_contra apart
  simp [read?, apart] at alone

/-- White space holds no annotations. -/
theorem leads_spacing {gap : List Glyph} (spaced : ∀ glyph ∈ gap, isSpacing glyph.shown = true) :
    Leads gap [] where
  reads rest _ := leading_spaced spaced rest
  begins rest begins := by
    -- Spacing is skipped in front of whatever is behind it.
    rwa [Begins, skipSpacing, List.dropWhile_append_of_pos spaced]

/-- A written annotation by itself is read as one. -/
theorem leading_single (written : IsWritten angled self) :
    leading self.glyphs = ([self.short], []) := by
  -- Nothing stands behind it, so the annotation is read and then nothing more.
  have nothing : leading [] = ([], []) := leading_eq []
  have ends : Ends [] := ⟨by simp, by simp [skipSpacing]⟩
  have alone := leading_glyphs written fun _ => ends
  rwa [List.append_nil, nothing] at alone

/-- An annotation begins no arguments. -/
theorem begins_glyphs (self : AnnotationUse) (rest : List Glyph) :
    Begins (self.glyphs ++ rest) := by
  -- An annotation begins with its sign, which opens no brackets.
  rw [Begins, glyphs, List.cons_append, skipSpacing, List.dropWhile_cons_of_neg (by decide)]
  simp [Glyph.plain, Glyph.shown]

/-- A written annotation is one of a run if white space comes behind it. -/
theorem leads_glyphs (written : IsWritten angled self) {space : Glyph}
    (spaced : isSpacing space.shown = true) : Leads (self.glyphs ++ [space]) [self.short] where
  reads rest begins := by
    -- White space ends the name, so what follows is not taken for a part of it.
    have stop : isNameChar space.shown = false := by
      simp only [isSpacing, Bool.or_eq_true, decide_eq_true_eq] at spaced
      rcases spaced with (((is | is) | is) | is) | is <;> rw [is] <;> decide
    have gap : ∀ glyph ∈ [space], isSpacing glyph.shown = true := by simpa using spaced
    have ends : Ends (space :: rest) :=
      ⟨by simpa using stop, (leads_spacing gap).begins rest begins⟩
    have behind := leading_spaced gap rest
    rw [List.append_assoc, List.singleton_append, leading_glyphs written fun _ => ends]
    rw [List.singleton_append] at behind
    rw [behind, List.singleton_append]
  begins rest _ := by
    rw [List.append_assoc]
    exact begins_glyphs self _

/-- The annotations of runs are read one behind the other. -/
theorem leads_flatMap {α : Type} {items : List α} {code : α → List Glyph} {note : α → AnnotationUse}
    (each : ∀ item ∈ items, Leads (code item) [note item]) :
    Leads (items.flatMap code) (items.map note) := by
  induction items with
  | nil => exact leads_nil
  | cons item items ih =>
    -- Each run is read in front of those behind it.
    obtain ⟨here, later⟩ := List.forall_mem_cons.mp each
    exact here.append (ih later)

/-! What follows annotations. -/

/-- What follows the arguments of an annotation is the end of the code. -/
theorem readArguments_isSuffix (code : List Glyph) : (readArguments code).2 <:+ code := by
  unfold readArguments
  split
  · exact List.suffix_refl code
  · rename_i glyph rest start
    -- Spacing is dropped before the parenthesis is looked for.
    have behind : rest <:+ code :=
      (List.suffix_cons glyph rest).trans (start ▸ List.dropWhile_suffix _)
    split
    · split
      · exact (List.drop_suffix _ rest).trans behind
      · exact List.nil_suffix
    · exact List.suffix_refl code

/-- What follows an annotation is the end of the code. -/
theorem read?_isSuffix {code after : List Glyph} {first : AnnotationUse}
    (found : read? code = some (first, after)) : after <:+ code := by
  cases code with
  | nil => cases found
  | cons glyph rest =>
    simp only [read?] at found
    split at found
    · cases found
      -- The sign and the name are taken off the front, and then the arguments are.
      exact (readArguments_isSuffix _).trans
        ((List.drop_suffix _ rest).trans (List.suffix_cons glyph rest))
    · cases found

/-- What follows the annotations at the start of code is the end of the code. -/
theorem leading_isSuffix (code : List Glyph) : (leading code).2 <:+ code := by
  have spaced : skipSpacing code <:+ code := List.dropWhile_suffix _
  rw [leading]
  split
  · exact spaced
  · rename_i first after found
    -- The recursion is on what follows the first annotation.
    have shorter := Nat.lt_of_lt_of_le (read?_length found) (dropWhile_length _ _)
    exact (leading_isSuffix after).trans ((read?_isSuffix found).trans spaced)
termination_by code.length

/-! A name that is given as a string. -/

/-- The arguments that give a name as a string. -/
def nameArgument (value : List Char) : List Char :=
  "name = ".toList ++ Literal.render value

/-- Only the quotes of a literal, and what stands for its contents, are seen of it. -/
theorem shown_literal {value : List Char} :
    ∀ glyph ∈ Literal.glyphs value, glyph.shown ∈ ['"', ' ', '\n'] := by
  intro glyph member
  simp only [Literal.glyphs, List.mem_cons, List.mem_append, List.mem_map, List.not_mem_nil,
    or_false] at member
  -- The contents are hidden, so only spaces and line breaks are left of them.
  rcases member with rfl | ⟨c, -, rfl⟩ | rfl
  · decide
  · by_cases ended : c = '\n' <;> simp [Glyph.inside, Glyph.shown, ended]
  · decide

/-- A literal is code in which brackets match. -/
theorem writes_literal (value : List Char) {rest : List Char} (apart : ∀ d ∈ rest.head?, d ≠ '"') :
    Glyph.Writes angled false (Literal.glyphs value) (Literal.render value) rest := by
  refine ⟨Literal.spells_render value apart, Glyph.balanced_of_flat fun glyph member => ?_⟩
  -- What is seen of a literal is nothing that brackets are matched by.
  have flat : ∀ c ∈ ['"', ' ', '\n'], Glyph.bracketOf c = .level ∧ c ≠ '<' ∧ c ≠ '>' ∧ c ≠ ',' := by
    decide
  exact flat _ (shown_literal glyph member)

/-- A name that is given as a string is code in which brackets match. -/
theorem writes_nameArgument (value : List Char) {rest : List Char}
    (apart : ∀ d ∈ rest.head?, d ≠ '"') :
    Glyph.Writes angled false ("name = ".toList.map Glyph.plain ++ Literal.glyphs value)
      (nameArgument value) rest :=
  -- The name and the sign behind it are flat, and the literal stands behind them.
  (Glyph.writes_flat _ (by decide)).append (writes_literal value apart)

/-- A name that is given as a string is read as it is written. -/
theorem ofCode_nameArgument (value : List Char) :
    Glyph.ofCode (nameArgument value) =
      "name = ".toList.map Glyph.plain ++ Literal.glyphs value := by
  -- What spells the argument is what it is read as.
  have writes : Glyph.Writes false false _ _ [] := writes_nameArgument value (by simp)
  exact writes.spelled.ofCode_eq

/-- An annotation that gives a name as a string, as code. -/
theorem glyphs_nameArgument (kind value : List Char) :
    glyphs ⟨kind, some (nameArgument value)⟩ = Glyph.plain '@' :: (kind.map Glyph.plain ++
      Glyph.plain '(' :: ("name = ".toList.map Glyph.plain ++ Literal.glyphs value ++
        [Glyph.plain ')'])) := by
  -- Only what the arguments are read as is put in.
  simp only [glyphs, ofCode_nameArgument]

/-- An annotation that gives a name as a string can be written. -/
theorem isWritten_nameArgument {kind : List Char} (named : kind ≠ [])
    (plain : ∀ c ∈ kind, isNameChar c = true) (value : List Char) :
    IsWritten angled ⟨kind, some (nameArgument value)⟩ :=
  ⟨named, plain, fun _ given => by
    -- There is no other argument, and this one is code up to its end.
    have writes : Glyph.Writes angled false _ _ [] := writes_nameArgument value (by simp)
    rw [← Option.some.inj given, Glyph.IsCode, ofCode_nameArgument]
    exact writes.withCommas⟩

/-- No character inside a literal is seen as a quote. -/
theorem inside_shown (c : Char) : (Glyph.inside c).shown ≠ '"' := by
  -- Inside of a literal only a line break is seen as itself.
  by_cases ended : c = '\n' <;> simp [Glyph.inside, Glyph.shown, ended]

/-- The contents of a literal are read up to the quote behind them. -/
theorem plainBody_inside (body : List Char) (rest : List Glyph) :
    Literal.plainBody (body.map Glyph.inside ++ Glyph.plain '"' :: rest) = some (body, rest) := by
  -- A character of the contents is seen as a space or a line break, and never ends them.
  induction body with
  | nil => rfl
  | cons c body ih =>
    rw [List.map_cons, List.cons_append, Literal.plainBody, if_neg (inside_shown c), ih]
    rfl

/-- Code in front of the first quote holds no literals. -/
theorem values_append {front : List Glyph} (unquoted : ∀ glyph ∈ front, glyph.shown ≠ '"')
    (rest : List Glyph) : Literal.values (front ++ rest) = Literal.values rest := by
  -- Only a quote begins a literal, so each glyph in front is passed over.
  induction front with
  | nil => rfl
  | cons glyph front ih =>
    obtain ⟨here, later⟩ := List.forall_mem_cons.mp unquoted
    rw [List.cons_append, Literal.values, if_pos here, ih later]

/-- A literal has the value that it is written for. -/
theorem values_glyphs (value : List Char) {rest : List Glyph}
    (apart : ∀ glyph ∈ rest.head?, glyph.shown ≠ '"') :
    Literal.values (Literal.glyphs value ++ rest) = value :: Literal.values rest := by
  -- Two quotes in a row are an empty literal, as no third one follows them.
  have single : Literal.startsTriple (Literal.glyphs value ++ rest) = false := by
    unfold Literal.glyphs
    cases Literal.escape value with
    | nil =>
      cases rest with
      | nil => rfl
      | cons glyph rest => simp [Literal.startsTriple, apart glyph rfl]
    | cons c more => cases more <;> simp [Literal.startsTriple, inside_shown]
  have body := plainBody_inside (Literal.escape value) rest
  have shape : Literal.glyphs value ++ rest = Glyph.plain '"' ::
      ((Literal.escape value).map Glyph.inside ++ Glyph.plain '"' :: rest) := by
    simp [Literal.glyphs]
  rw [shape] at single ⊢
  rw [Literal.values, if_neg (by decide), if_neg (by simp [single])]
  split
  · rename_i nothing
    rw [body] at nothing
    cases nothing
  · rename_i found after read
    rw [body] at read
    cases read
    rw [Literal.unescape_escape]

/-- No white space stands in an identifier. -/
theorem isBlank_of_isIdentifierChar {c : Char} (word : isIdentifierChar c = true) :
    isBlank c = false := by
  by_contra white
  -- There are few characters of white space, and none of them is part of an identifier.
  have apart := isBlank_imp (p := (!isIdentifierChar ·)) (by simpa using white) (by decide +kernel)
  simp [word] at apart

/-- White space in front of an argument takes no part in its name. -/
theorem argumentName_spaced {space : List Char} (spaced : ∀ c ∈ space, isBlank c = true)
    (part : List Glyph) : argumentName (space.map Glyph.plain ++ part) = argumentName part := by
  have seen : Glyph.shownText (space.map Glyph.plain ++ part) =
      space ++ Glyph.shownText part := by
    simp
  -- The name is read off the text that is seen, from its first character that is not blank.
  have text : trimStart (space ++ Glyph.shownText part) = trimStart (Glyph.shownText part) :=
    List.dropWhile_append_of_pos spaced
  simp only [argumentName, seen, text]

/-- The name that an argument is given by stands in front of the equals sign. -/
theorem argumentName_named {name gap : List Char} (filled : name ≠ [])
    (word : ∀ c ∈ name, isIdentifierChar c = true) (spaced : ∀ c ∈ gap, isBlank c = true)
    {value : List Glyph} (single : ∀ glyph ∈ value.head?, glyph.shown ≠ '=') :
    argumentName ((name ++ gap).map Glyph.plain ++ Glyph.plain '=' :: value) = some name := by
  -- The name ends at white space or at the sign, neither of which is a character of names.
  have stop : ∀ c ∈ (gap ++ '=' :: Glyph.shownText value).head?, isIdentifierChar c = false := by
    intro c first
    by_contra isWord
    have white := isBlank_of_isIdentifierChar (c := c) (by simpa using isWord)
    cases gap with
    | nil =>
      obtain rfl : '=' = c := by simpa using first
      exact absurd isWord (by decide)
    | cons d gap =>
      obtain rfl : d = c := by simpa using first
      simp [spaced d] at white
  have seen : Glyph.shownText ((name ++ gap).map Glyph.plain ++ Glyph.plain '=' :: value) =
      name ++ (gap ++ '=' :: Glyph.shownText value) := by
    simp [Glyph.shown_plain]
  have text : trimStart (name ++ (gap ++ '=' :: Glyph.shownText value)) =
      name ++ (gap ++ '=' :: Glyph.shownText value) := by
    refine dropWhile_eq fun c first => ?_
    obtain ⟨d, more, rfl⟩ := List.exists_cons_of_ne_nil filled
    obtain rfl : d = c := by simpa using first
    exact isBlank_of_isIdentifierChar (word d (by simp))
  have sign : trimStart (gap ++ '=' :: Glyph.shownText value) = '=' :: Glyph.shownText value :=
    dropWhile_stop spaced fun c first => by
      obtain rfl : '=' = c := by simpa using first
      decide
  simp only [argumentName, seen, text, takeWhile_stop word stop, dropWhile_stop word stop, sign]
  cases value with
  | nil => simp [filled, Glyph.shownText]
  | cons glyph value =>
    have apart := single glyph rfl
    simp only [Glyph.shownText, List.map_cons, List.isEmpty_iff, filled, if_false]
    split
    · rename_i twice
      exact absurd (List.cons.inj (List.cons.inj twice).2).1 apart
    · rfl
    · rename_i unsigned
      exact absurd rfl (unsigned _)

/-- The string that gives a name is found by it. -/
theorem stringArgument_nameArgument (name value : List Char) :
    stringArgument ⟨name, some (nameArgument value)⟩ "name".toList = some value := by
  -- The argument is the only one, for a comma in its literal divides nothing.
  have parts : parts ⟨name, some (nameArgument value)⟩ =
      ["name = ".toList.map Glyph.plain ++ Literal.glyphs value] := by
    have writes : Glyph.Writes false false _ _ [] := writes_nameArgument value (by simp)
    simp only [AnnotationUse.parts, ofCode_nameArgument]
    exact Glyph.split_single writes.balanced none
  have named : argumentName ("name = ".toList.map Glyph.plain ++ Literal.glyphs value) =
      some "name".toList :=
    @argumentName_named "name".toList [' '] (by decide) (by decide) (by decide)
      (Glyph.plain ' ' :: Literal.glyphs value) (by simp [Glyph.plain, Glyph.shown])
  have values : Literal.values ("name = ".toList.map Glyph.plain ++ Literal.glyphs value) =
      [value] := by
    have alone := @values_glyphs value [] (by simp)
    rw [values_append (by decide)]
    simpa [Literal.values] using alone
  simp only [stringArgument, parts, List.find?_cons, named, values, beq_self_eq_true,
    Option.bind_eq_bind, Option.bind_some, List.head?_cons]

end AnnotationUse

end IndexAudit
