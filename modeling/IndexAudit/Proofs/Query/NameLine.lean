import IndexAudit.Proofs.Code.Row
import IndexAudit.Proofs.Offset.Repository
import IndexAudit.Proofs.Query.Placement

/-!
The line of a query column is one on which its method is named.

Each segment of a body stands in the code on the line that its number tells, and the name of a
method stands in its segment. Hiding literals keeps the line breaks, and so does leaving comments
out, which makes the line the same in the source text.
-/

namespace IndexAudit

/-- Code that shows a text without spaces is that text. -/
theorem Glyph.text_eq {code : List Glyph} (noSpace : ' ' ∉ shownText code) :
    text code = shownText code := by
  -- Only a hidden character is seen as another one, and that as a space.
  refine List.map_congr_left fun glyph member => char_of_shown rfl fun space => noSpace ?_
  exact List.mem_map.mpr ⟨glyph, member, space⟩

namespace Member

/-- A member that is named in code, on the line that is told of it, if it has a name. -/
def NamedIn (code : List Glyph) (line : Nat) (member : Member) : Prop :=
  ∀ name ∈ member.name, name ≠ [] ∧ (∀ c ∈ name, isWordChar c = true) ∧
    ∃ front named back, code = front ++ named ++ back ∧ Glyph.text named = name ∧
      member.line = line + Segment.lineBreaks front

/-- A member is named in more code on the same line, if that is counted from the start of it. -/
theorem NamedIn.within {code : List Glyph} {line : Nat} {member : Member} {before : List Glyph}
    (named : member.NamedIn code (line + Segment.lineBreaks before)) (after : List Glyph) :
    member.NamedIn (before ++ code ++ after) line := by
  intro name isName
  -- The place of the name has more in front of it and behind it, and its line moves along.
  obtain ⟨filled, word, front, shown, back, rfl, text, counted⟩ := named name isName
  refine ⟨filled, word, before ++ front, shown, back ++ after, by simp, text, ?_⟩
  rw [counted, Segment.lineBreaks_append, Nat.add_assoc]

/-- Members are named in the code in which their segments stand. -/
theorem namedIn_ofSegments {code : List Glyph} {line : Nat} (keeps : KeepsLines code)
    {segments : List Segment} {spans : List Segment.Span}
    (located : List.Forall₂ (Segment.IsAt code [] line) segments spans)
    (pending : List AnnotationUse) :
    ∀ member ∈ ofSegments pending segments, member.NamedIn code line := by
  induction located generalizing pending with
  | nil => simp [ofSegments]
  | @cons segment span segments spans here later ih =>
    obtain ⟨front, back, whole, -, counted⟩ := here
    rw [ofSegments]
    obtain ⟨taken, parts⟩ := AnnotationUse.leading_isSuffix segment.code
    generalize AnnotationUse.leading segment.code = read at parts
    obtain ⟨own, declaration⟩ := read
    dsimp only at parts ⊢
    split
    · exact ih _
    split
    · rename_i before name found
      refine List.forall_mem_cons.mpr ⟨?_, ih _⟩
      rintro _ ⟨⟩
      have word := isWordChar_of_methodName? found
      -- The declaration is divided in front of the name and behind it.
      obtain ⟨behind, divided⟩ := methodName?_append_isPrefix found
      obtain ⟨rest, after, rfl, shownRest, -⟩ := List.map_eq_append_iff.mp divided.symm
      obtain ⟨ahead, named, rfl, shownAhead, shownNamed⟩ := List.map_eq_append_iff.mp shownRest
      have noSpace : ' ' ∉ Glyph.shownText named := by
        intro space
        exact absurd (word ' ' (shownNamed ▸ space)) (by decide)
      refine ⟨ne_nil_of_trailingName? (trailingName?_of_methodName? found), word,
        front ++ taken ++ ahead, named, after ++ back, ?_,
        (Glyph.text_eq noSpace).trans shownNamed, ?_⟩
      · rw [whole, ← parts]
        simp
      · -- Of the line breaks in front of the name, none is hidden.
        have inside : KeepsLines ahead := fun glyph listed =>
          keeps glyph (by rw [whole, ← parts]; simp [listed])
        have breaks := inside.count_shownText
        rw [show Glyph.shownText ahead = before from shownAhead] at breaks
        rw [breaks, counted, ← parts]
        simp only [Segment.lineBreaks_append]
        omega
    · exact List.forall_mem_cons.mpr ⟨by rintro _ ⟨⟩, ih _⟩

/-- The members of a body are named in it. -/
theorem namedIn_members {body : List Glyph} (keeps : KeepsLines body) (line : Nat) :
    ∀ member ∈ Repository.members line body, member.NamedIn body line := by
  -- The body is walked through from its start to its end, which locates its segments.
  have whole : body = [] ++ (body ++ []) := by simp
  obtain ⟨spans, segments, ending, -, collected, empty, located⟩ :=
    Segment.walk?_body runsOn whole line (.inl rfl) (width body + 1) (Nat.lt_succ_self _)
  rw [Repository.members, collected, ofSegments_append empty]
  exact namedIn_ofSegments keeps located []

end Member

/-- The name of a declaration that is found consists of characters that count towards a word. -/
theorem Declaration.isWordChar_of_find {keywords : List (List Char)} {previous : Option Char}
    {code : List Glyph} {found : Declaration}
    (declared : find keywords previous code = some found) :
    ∀ c ∈ found.name, isWordChar c = true := by
  obtain ⟨keyword, -, rest, -, read⟩ := exists_readDeclared declared
  simp only [readDeclared?, Option.bind_eq_bind, Option.bind_eq_some_iff] at read
  obtain ⟨spaced, -, read⟩ := read
  split at read
  · rw [readName?] at read
    split at read
    -- The name is the run of such characters in front.
    · obtain ⟨same, -⟩ := Prod.mk.inj (Option.some.inj read)
      rw [← same]
      exact fun c => List.mem_takeWhile_imp
    · cases read
  · cases read

namespace Repository

/-- The members of a body are named in the code around it, counted from the first line on. -/
theorem namedIn_body {front body inside : List Glyph} (keeps : KeepsLines (front ++ inside))
    (inner : body <+: inside) :
    ∀ member ∈ members (SourceLine.numberAfter (Glyph.text front)) body,
      member.NamedIn (front ++ inside) 1 := by
  intro member isMember
  obtain ⟨behind, parts⟩ := inner
  -- The line of the body is that of the line breaks in front of it.
  have line : SourceLine.numberAfter (Glyph.text front) = 1 + Segment.lineBreaks front :=
    Nat.add_comm _ _
  have named := Member.namedIn_members
    (fun glyph listed => keeps glyph (by rw [← parts]; simp [listed])) _ member isMember
  rw [line] at named
  rw [← parts, ← List.append_assoc]
  exact named.within behind

/-- The members of a declared repository are named in its code, counted from the first line on. -/
theorem namedIn_declared {mappings : Mappings} {code : List Char} {declared : Declared}
    (found : declared? mappings code = some declared) :
    (∀ c ∈ declared.name, isWordChar c = true) ∧
      ∀ member ∈ declared.members, member.NamedIn (Glyph.ofCode code) 1 := by
  simp only [declared?, Option.bind_eq_bind] at found
  obtain ⟨declaration, first, found⟩ := Option.bind_eq_some_iff.mp found
  split at found
  · cases found
  obtain ⟨entity, -, found⟩ := Option.bind_eq_some_iff.mp found
  obtain ⟨mapping, -, found⟩ := Option.bind_eq_some_iff.mp found
  obtain rfl := Option.some.inj found
  refine ⟨Declaration.isWordChar_of_find first, ?_⟩
  obtain ⟨front, whole⟩ : (declaration.after.dropWhile (·.shown != '{')).drop 1 <:+
      Glyph.ofCode code :=
    (List.drop_suffix _ _).trans
      ((List.dropWhile_suffix _).trans (Declaration.find_isSuffix first))
  have keeps := keepsLines_ofCode code
  rw [← whole] at keeps ⊢
  -- The body is what is inside of the brackets, and begins on the line that they open on.
  simp only [List.length_append, Nat.add_sub_cancel, List.take_left]
  refine namedIn_body keeps ?_
  split
  · exact List.take_prefix _ _
  · exact List.prefix_refl _

/-- The columns of members come in the order of their lines, if the members do. -/
theorem memberColumns_sorted {members : List Member}
    (ordered : members.Pairwise (·.line ≤ ·.line)) (file : String) (repository : List Char)
    (mappings : Mappings) (mapping : TableMapping) (pending : List Suppression) :
    (memberColumns file repository mappings mapping pending members).Pairwise
      (·.line ≤ ·.line) := by
  induction members generalizing pending with
  | nil => exact .nil
  | cons first rest ih =>
    obtain ⟨before, ordered⟩ := List.pairwise_cons.mp ordered
    -- All columns of the first member stand on its line.
    rw [memberColumns_cons, List.pairwise_append]
    have onLine : ∀ column ∈ memberColumns file repository mappings mapping [] [first],
        column.line = first.line := by
      intro column listed
      obtain ⟨member, isMember, -, -, same, -⟩ := exists_member listed
      rw [same, List.mem_singleton.mp isMember]
    have here : ∀ column ∈ (memberColumns file repository mappings mapping [] [first]).filter
        fun column => !(pending.takeWhile (·.line ≤ first.line)).any (·.covers column.column),
        column.line = first.line := fun column listed =>
      onLine column (List.mem_of_mem_filter listed)
    refine ⟨List.pairwise_iff_forall_sublist.mpr ?_, ih ordered _, ?_⟩
    · intro one other both
      rw [here one (both.subset (by simp)), here other (both.subset (by simp))]
    · intro one isOne other isOther
      obtain ⟨member, isMember, -, -, same, -⟩ := exists_member isOther
      rw [here one isOne, same]
      exact before member isMember

/--
Each query column is said to stand on a line of the source text whose code names its method, and
the columns come in the order of these lines.

The source of a column is divided into repository and method by its only dot. Lines are those that
line feeds separate, counted from one, and the code on each is read as the lines in front leave off.
-/
theorem columns_onLines (file : String) (mappings : Mappings) (text : List Char) :
    (columns file mappings text).Pairwise (·.line ≤ ·.line) ∧
      ∀ column ∈ columns file mappings text, ∃ repository method,
        column.source = String.ofList (repository ++ '.' :: method) ∧ method ≠ [] ∧
        (∀ c ∈ repository ++ method, isWordChar c = true) ∧
        1 ≤ column.line ∧ column.line ≤ (text.splitOn '\n').length ∧
        ∃ line ∈ SourceLine.ofText text, line.number = column.line ∧ method <:+: line.code ∧
          (SourceState.code.rowCode (text.splitOn '\n'))[column.line - 1]? = some line.code := by
  rw [columns_eq]
  cases found : declared? mappings (SourceLine.codeText (SourceLine.ofText text)) with
  | none => simp
  | some declared =>
    simp only [Option.toList_some, List.flatMap_singleton]
    refine ⟨memberColumns_sorted (declared_sorted found) _ _ _ _ _, fun column listed => ?_⟩
    obtain ⟨isName, named⟩ := namedIn_declared found
    obtain ⟨member, isMember, method, hasName, sameLine, source⟩ := exists_member listed
    obtain ⟨filled, word, front, shown, back, whole, rfl, counted⟩ :=
      named member isMember method hasName
    have code := congrArg Glyph.text whole
    rw [Glyph.ofCode, LiteralState.text_glyphs] at code
    -- A line break is no character of a word, so the name is on one line.
    have inLine : '\n' ∉ Glyph.text shown := fun inside => absurd (word _ inside) (by decide)
    have parts : Glyph.text (front ++ shown ++ back) =
        Glyph.text front ++ Glyph.text shown ++ Glyph.text back := by simp [Glyph.text]
    obtain ⟨line, isLine, number, inside, row⟩ :=
      SourceLine.exists_row (code.trans parts) inLine filled
    -- The line of a member counts the line breaks in front of its name.
    have place : column.line = (Glyph.text front).count '\n' + 1 := by
      rw [sameLine, counted, Nat.add_comm]
      rfl
    refine ⟨declared.name, Glyph.text shown, source, filled, ?_, ?_, ?_, line, isLine, ?_, inside,
      ?_⟩
    · exact fun c listed => (List.mem_append.mp listed).elim (isName c) (word c)
    · omega
    · obtain ⟨within, -⟩ := List.getElem?_eq_some_iff.mp row
      rw [SourceState.length_rowCode] at within
      omega
    · rw [number, place]
    · rw [place, Nat.add_sub_cancel]
      exact row

end Repository

end IndexAudit
