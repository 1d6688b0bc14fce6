import IndexAudit.Proofs.Code.Waiting
import IndexAudit.Proofs.Entity.Declaration
import IndexAudit.Query.Repository

/-!
The members of a repository are read with the annotations that wait for them.

A member that is cut at a line break goes on behind it if it is only the type of a method.
-/

namespace IndexAudit

namespace Member

/-- The characters that a member which runs on behind a line break does not hold. -/
def closingChars : List Char := ['(', ':', '=', ';']

/-- A member runs on no differently if white space comes behind it. -/
theorem runsOn_append {blank : List Char} (white : ∀ c ∈ blank, isBlank c = true)
    (text : List Char) : runsOn (text ++ blank) = runsOn text := by
  -- Whether it runs on is told by the trimmed text.
  simp only [runsOn, trim_append white]

/-- A member that runs on holds none of those characters. -/
theorem notMem_of_runsOn {text : List Char} (goesOn : runsOn text = true) :
    ∀ c ∈ text, c ∉ closingChars := by
  intro c member listed
  -- Such a character is no white space, so trimming keeps it, and then the member is closed.
  have visible : ∀ d ∈ closingChars, isBlank d = false := by decide
  have kept := mem_trim member (visible c listed)
  simp only [runsOn] at goesOn
  split at goesOn
  · cases goesOn
  · rename_i apart
    simp only [Bool.or_eq_true, List.any_eq_true, not_or, not_exists] at apart
    have none := apart.2 c
    simp only [closingChars, List.mem_cons, List.not_mem_nil, or_false] at listed
    rcases listed with rfl | rfl | rfl | rfl <;> simp [kept] at none

/-- A member ends at a line break behind one of those characters. -/
theorem runsOn_eq_false {text : List Char} {c : Char} (member : c ∈ text)
    (listed : c ∈ closingChars) : runsOn text = false :=
  Bool.eq_false_iff.mpr fun goesOn => notMem_of_runsOn goesOn c member listed

/-- A reader of members, for whom annotations wait. -/
def reader : MemberReader (List Member) where
  runsOn := runsOn
  closing := closingChars
  ofSegments := ofSegments
  visible := by decide
  unclosed := notMem_of_runsOn
  handsOn {pending own code} closed line rest := by
    rw [ofSegments, closed]
    rfl

/-- The reader reads the members that the segments of the rest of a body make up. -/
theorem read_reader (place : MemberPlace) (code : List Glyph) : reader.read place code =
    ofSegments place.pending (Segment.collect runsOn place.start 0 place.current code) :=
  rfl

open MemberPlace (Waits)

variable {place : MemberPlace} {waiting : List AnnotationUse} {line : Nat}

/-- White space goes to a segment that runs on behind line breaks. -/
theorem reaches_gap {gap : List Char} (spaced : ∀ c ∈ gap, isSpacing c = true)
    (runs : '\n' ∈ gap → runsOn (Glyph.shownText place.current.reverse) = true) :
    reader.Reaches place (gap.map Glyph.plain) (place.grown (gap.map Glyph.plain)) := by
  induction gap generalizing place with
  | nil => exact fun rest => rfl
  | cons c gap ih =>
    obtain ⟨here, later⟩ := List.forall_mem_cons.mp spaced
    have step : reader.Reaches place [Glyph.plain c] (place.grown [Glyph.plain c]) :=
      MemberReader.reaches_spacing here fun first => runs (by simp [first])
    -- White space behind a segment does not decide whether it runs on.
    have behind : Glyph.shownText (place.grown [Glyph.plain c]).current.reverse =
        Glyph.shownText place.current.reverse ++ [c] := by
      simp [MemberPlace.grown, Glyph.shown_plain]
    have white : ∀ d ∈ [c], isBlank d = true := by simpa using Entity.isBlank_of_isSpacing here
    have steps := ih later fun isBreak => by
      rw [behind, runsOn_append white]
      exact runs (List.mem_cons_of_mem _ isBreak)
    simpa [MemberPlace.grown] using step.append steps

/-! The declaration that ends a member. -/

/-- A declaration with annotations in front of it that begins on a line. -/
def ofDeclaration (notes : List AnnotationUse) (line : Nat) (text : List Char) : Member :=
  match methodName? text with
  | some (before, name) => ⟨some name, line + before.count '\n', notes⟩
  | none => ⟨none, line + (text.takeWhile isBlank).count '\n', []⟩

/-- A text that begins neither with white space nor with an annotation or the arguments of one. -/
def BeginsMember (text : List Char) : Prop :=
  text.head?.any fun c => !isBlank c && c != '@' && c != '('

section Declaration

variable {declaration : List Glyph}

/-- A declaration is read behind all annotations that wait for it. -/
theorem ofSegments_declaration (waits : Waits waiting line place)
    (begins : BeginsMember (Glyph.shownText declaration)) (opensBlock : Bool)
    (rest : List Segment) :
    ofSegments place.pending
        (⟨(place.grown declaration).current.reverse, place.start, opensBlock⟩ :: rest) =
      ofDeclaration waiting line (Glyph.shownText declaration) :: ofSegments [] rest := by
  obtain ⟨⟨own, rfl, leads⟩, line_eq⟩ := waits
  obtain ⟨first, more, rfl⟩ : ∃ first more, declaration = first :: more := by
    cases declaration with
    | nil => cases begins
    | cons first more => exact ⟨first, more, rfl⟩
  obtain ⟨⟨visible, noSign⟩, noRound⟩ : (isBlank first.shown = false ∧ first.shown ≠ '@') ∧
      first.shown ≠ '(' := by
    simpa [BeginsMember, Glyph.shownText] using begins
  have unspaced : isSpacing first.shown = false := by
    by_contra spaced
    rw [Entity.isBlank_of_isSpacing (by simpa using spaced)] at visible
    cases visible
  -- The declaration itself gives the annotations no further argument.
  have starts : AnnotationUse.Begins (first :: more) := by
    rw [AnnotationUse.Begins, AnnotationUse.skipSpacing,
      List.dropWhile_cons_of_neg (by simp [unspaced])]
    simpa using noRound
  have read := leads.reads (first :: more) starts
  rw [AnnotationUse.leading_plain unspaced noSign, List.append_nil] at read
  have code : (place.grown (first :: more)).current.reverse =
      place.current.reverse ++ first :: more := by simp [MemberPlace.grown]
  have filled : Segment.isBlankCode (first :: more) = false := by
    simp [Segment.isBlankCode, visible]
  -- The line is that of the declaration, not of the first annotation.
  have front : place.start + Segment.lineBreaks (place.current.reverse ++ first :: more) -
      Segment.lineBreaks (first :: more) = line := by
    rw [Segment.lineBreaks_append, ← Nat.add_assoc, Nat.add_sub_cancel, line_eq]
  rw [code, ofSegments, read]
  simp only [filled, Bool.false_eq_true, if_false, front]
  rw [ofDeclaration]
  cases methodName? (Glyph.shownText (first :: more)) with
  | none => rfl
  | some found => rfl

/-- A member ends behind its declaration. -/
theorem read_stop (waits : Waits waiting line place)
    (begins : BeginsMember (Glyph.shownText declaration))
    (reaches : reader.Reaches place declaration (place.grown declaration)) {c : Char}
    (stops : c = ';' ∨ c = '\n' ∧
      runsOn (Glyph.shownText (place.grown declaration).current.reverse) = false)
    (rest : List Glyph) :
    reader.read place (declaration ++ Glyph.plain c :: rest) =
      ofDeclaration waiting line (Glyph.shownText declaration) ::
        reader.read (.fresh (line + (Glyph.text declaration ++ [c]).count '\n')) rest := by
  have ends : (Glyph.plain c).shown = ';' ∨ (Glyph.plain c).shown = '\n' ∧
      ¬ runsOn (Glyph.shownText (place.grown declaration).current.reverse) = true :=
    stops.imp_right fun ⟨isBreak, ends⟩ => ⟨isBreak, by simp [ends]⟩
  -- A semicolon leaves the line as it is, a line break is one more.
  have last : (if (Glyph.plain c).shown = '\n' then 1 else 0) = [c].count '\n' := by
    by_cases isBreak : c = '\n' <;> simp [Glyph.plain, Glyph.shown, isBreak]
  rw [reaches, read_reader, Segment.collect_stop ends, waits.grown_line, last, Nat.add_assoc,
    ← List.count_append]
  exact ofSegments_declaration waits begins false _

/-- A member ends behind its block, of which nothing is read. -/
theorem read_block (waits : Waits waiting line place)
    (begins : BeginsMember (Glyph.shownText declaration))
    (reaches : reader.Reaches place declaration (place.grown declaration)) {angled commas : Bool}
    {inner : List Glyph} (balanced : Glyph.Balanced angled commas inner) (rest : List Glyph) :
    reader.read place (declaration ++ Glyph.plain '\x7b' :: (inner ++ Glyph.plain '\x7d' :: rest)) =
      ofDeclaration waiting line (Glyph.shownText declaration) ::
        reader.read
          (.fresh (line + (Glyph.text declaration ++ Glyph.text inner).count '\n')) rest := by
  have close := Glyph.closeIndex_group '\x7b' '\x7d' (by decide) balanced rest
  have split : Glyph.plain '\x7b' :: (inner ++ Glyph.plain '\x7d' :: rest) =
      (Glyph.plain '\x7b' :: (inner ++ [Glyph.plain '\x7d'])) ++ rest := by simp
  have behind : Segment.afterBlock (Glyph.plain '\x7b' :: (inner ++ Glyph.plain '\x7d' :: rest)) =
      rest := by
    rw [Segment.afterBlock, close, split]
    exact List.drop_left' (by simp)
  -- The lines of the block are counted though nothing of it is read.
  have breaks : Segment.lineBreaks (Glyph.plain '\x7b' :: (inner ++ Glyph.plain '\x7d' :: rest)) -
      Segment.lineBreaks rest = (Glyph.text inner).count '\n' := by
    rw [split, Segment.lineBreaks_append, Nat.add_sub_cancel]
    simp [Segment.lineBreaks, Glyph.text, Glyph.plain]
  rw [reaches, read_reader, Segment.collect_block rfl, behind, breaks, waits.grown_line,
    Nat.add_assoc, ← List.count_append]
  exact ofSegments_declaration waits begins true _

end Declaration

/-! Types on a line of their own. -/

/-- A member runs on if it holds none of those characters and begins with none of those words. -/
theorem runsOn_eq_true {text kept : List Char} (trimmed : trim text = kept) (filled : kept ≠ [])
    (inside : ∀ c ∈ kept, c ∉ closingChars)
    (first : ∀ word ∈ (words kept).head?, String.ofList word ∉ closedWords) :
    runsOn text = true := by
  -- Of the three reasons to end, the characters, the words and emptiness, none applies.
  have isOpen : (kept.any fun c => c = '(' || c = ':' || c = '=' || c = ';') = false := by
    rw [List.any_eq_false]
    intro c member
    simpa [closingChars, and_assoc] using inside c member
  simp only [runsOn, trimmed, isOpen, Bool.or_false]
  rw [if_neg (by simpa using filled)]
  cases found : (words kept).head? with
  | none => rfl
  | some word => simpa using first word found

section Lead

variable {code : List Glyph} {own : List AnnotationUse} {front : List Char}

/-- Text behind annotations is trimmed up to the first of them. -/
theorem trim_leads (leads : AnnotationUse.Leads code own)
    (starts : ∀ c ∈ front.head?, isBlank c = false) (filled : front ≠ [])
    (ends : ∀ c ∈ front.getLast?, isBlank c = false) :
    trim (Glyph.shownText code ++ front) =
      Glyph.shownText (AnnotationUse.skipSpacing code) ++ front := by
  have sign := leads.starts
  have split : Glyph.shownText code = Glyph.shownText (code.takeWhile (isSpacing ·.shown)) ++
      Glyph.shownText (AnnotationUse.skipSpacing code) := by
    rw [Glyph.shownText, Glyph.shownText, Glyph.shownText, ← List.map_append,
      AnnotationUse.skipSpacing, List.takeWhile_append_dropWhile]
  have blank : ∀ c ∈ Glyph.shownText (code.takeWhile (isSpacing ·.shown)), isBlank c = true := by
    intro c member
    obtain ⟨glyph, taken, rfl⟩ := List.mem_map.mp member
    have spaced := List.mem_takeWhile_imp (p := fun glyph => isSpacing (Glyph.shown glyph)) taken
    exact Entity.isBlank_of_isSpacing spaced
  generalize AnnotationUse.skipSpacing code = noted at split sign
  -- The first of the annotations begins with its sign, which is not blank.
  have head : ∀ c ∈ (Glyph.shownText noted ++ front).head?, isBlank c = false := by
    cases noted with
    | nil => exact starts
    | cons glyph noted =>
      intro c first
      obtain rfl : glyph.shown = c := by simpa [Glyph.shownText] using first
      rw [sign glyph rfl]
      decide
  have last : ∀ c ∈ (Glyph.shownText noted ++ front).getLast?, isBlank c = false := by
    rwa [List.getLast?_append_of_ne_nil _ filled]
  rw [split, List.append_assoc, trim, trimStart, dropWhile_stop blank head, dropEndWhile_eq last]

/-- A member that begins with an annotation does not begin with one of those words. -/
theorem head?_words_leads (leads : AnnotationUse.Leads code own)
    (first : ∀ word ∈ (words front).head?, String.ofList word ∉ closedWords) :
    ∀ word ∈ (words (Glyph.shownText (AnnotationUse.skipSpacing code) ++ front)).head?,
      String.ofList word ∉ closedWords := by
  have sign := leads.starts
  generalize AnnotationUse.skipSpacing code = noted at sign
  cases noted with
  | nil => exact first
  | cons glyph noted =>
    obtain ⟨word, more, read⟩ := head?_words (show isBlank '@' = false by decide)
      (Glyph.shownText noted ++ front)
    have shape : Glyph.shownText (glyph :: noted) ++ front =
        '@' :: (Glyph.shownText noted ++ front) := by
      simp [Glyph.shownText, sign glyph rfl]
    intro other isFirst listed
    rw [shape, read] at isFirst
    obtain rfl : '@' :: word = other := by simpa using isFirst
    -- None of those words begins with the sign of an annotation.
    have each : ∀ word ∈ closedWords, word.toList.head? ≠ some '@' := by decide
    exact each _ listed (by simp)

/-- A member runs on behind a line break if annotations and the type of its method stand there. -/
theorem runsOn_waits (waits : Waits waiting line place) (isOpen : reader.IsOpen place.current)
    (inside : ∀ c ∈ front, c ∉ closingChars) (starts : ∀ c ∈ front.head?, isBlank c = false)
    (filled : front ≠ []) (ends : ∀ c ∈ front.getLast?, isBlank c = false)
    (first : ∀ word ∈ (words front).head?, String.ofList word ∉ closedWords) :
    runsOn (Glyph.shownText place.current.reverse ++ front) = true := by
  -- The annotations are dropped, so the end of the text decides.
  obtain ⟨⟨own, -, leads⟩, -⟩ := waits
  refine runsOn_eq_true (trim_leads leads starts filled ends) (by simp [filled]) ?_
    (head?_words_leads leads first)
  intro c member
  rcases List.mem_append.mp member with inNotes | inFront
  · obtain ⟨glyph, noted, rfl⟩ := List.mem_map.mp inNotes
    have within := (List.dropWhile_sublist _).subset noted
    exact isOpen glyph (List.mem_reverse.mp within)
  · exact inside c inFront

end Lead

end Member

end IndexAudit
