import IndexAudit.Proofs.Entity.Body
import IndexAudit.Proofs.Offset.Segment
import IndexAudit.Proofs.Query.MemberLine

/-!
The members of a repository read at their byte offsets.

The line of a member is counted from the offset of its name.
-/

namespace IndexAudit

/-- The line on which an offset of code lies. -/
def lineAt (code : List Glyph) (offset : Nat) : Nat :=
  ((byteChars (Glyph.text code)).take offset).count '\n' + 1

/-- A text has as many line breaks as its bytes. -/
theorem count_byteChars (text : List Char) : (byteChars text).count '\n' = text.count '\n' := by
  induction text with
  | nil => rfl
  | cons c text ih =>
    rw [byteChars_cons, List.count_append, ih]
    -- Outside of ASCII no byte is a line break, as none is a character of ASCII.
    by_cases ascii : c.toNat < 0x80
    · rw [byteChars_ascii ascii, ← List.count_append]
      rfl
    · have other : c ≠ '\n' := by
        rintro rfl
        exact ascii (by decide)
      have none : (byteChars [c]).count '\n' = 0 := by
        rw [List.count_eq_zero]
        intro listed
        exact absurd (toNat_byteChars (Nat.not_lt.mp ascii) _ listed) (by decide)
      rw [none, List.count_cons_of_ne other, Nat.zero_add]

/-- The line of an offset is that behind the line breaks in front of it. -/
theorem lineAt_width (front rest : List Glyph) :
    lineAt (front ++ rest) (width front) = Segment.lineBreaks front + 1 := by
  -- Line breaks are counted in the bytes in front of the offset, and each is one byte.
  have text : Glyph.text (front ++ rest) = Glyph.text front ++ Glyph.text rest := List.map_append
  rw [lineAt, text, byteChars_append, ← width_text front, ← length_byteChars, List.take_left,
    count_byteChars]
  rfl

/-- Code of which no line break is hidden. -/
def KeepsLines (code : List Glyph) : Prop :=
  ∀ glyph ∈ code, glyph.hidden = true → glyph.char ≠ '\n'

/-- A search sees the line breaks of code of which it hides none. -/
theorem KeepsLines.count_shownText {code : List Glyph} (keeps : KeepsLines code) :
    (Glyph.shownText code).count '\n' = Segment.lineBreaks code := by
  induction code with
  | nil => rfl
  | cons glyph code ih =>
    obtain ⟨here, later⟩ := List.forall_mem_cons.mp keeps
    -- A glyph that is hidden is seen as a space, and is no line break itself.
    have same : (glyph.shown == '\n') = (glyph.char == '\n') := by
      cases hidden : glyph.hidden with
      | true =>
        have shown : glyph.shown = ' ' := if_pos hidden
        rw [shown, beq_false_of_ne (here hidden)]
        decide
      | false => simp [Glyph.shown, hidden]
    have counted := ih later
    simp only [Glyph.shownText, Segment.lineBreaks, Glyph.text, List.map_cons, List.count_cons, same]
      at counted ⊢
    rw [counted]

namespace LiteralState

/-- A place from which the next character may be protected from its meaning only inside of a line. -/
def StaysInLine (state : LiteralState) (text : List Char) : Prop :=
  state = .stringEscape ∨ state = .characterEscape → text.head? ≠ some '\n'

/-- A line break is no part of the contents of a literal, and a protected character none. -/
theorem step_staysInLine {state : LiteralState} {c : Char} {rest : List Char}
    (stays : state.StaysInLine (c :: rest)) :
    ((state.step c rest).1 = true → c ≠ '\n') ∧ (state.step c rest).2.StaysInLine rest := by
  have protects : rest.head?.any (· != '\n') = true → rest.head? ≠ some '\n' := by
    intro other line
    simp [line] at other
  -- A literal other than a raw string ends at the end of its line, even behind a backslash.
  cases state with
  | code =>
    rw [step]
    split_ifs <;> simp [StaysInLine]
  | string =>
    rw [step]
    split_ifs <;> simp_all [StaysInLine]
  | character =>
    rw [step]
    split_ifs <;> simp_all [StaysInLine]
  | stringEscape => exact ⟨fun _ line => stays (.inl rfl) (by simp [line]), by simp [step, StaysInLine]⟩
  | characterEscape => exact ⟨fun _ line => stays (.inr rfl) (by simp [line]), by simp [step, StaysInLine]⟩
  | rawOpening left =>
    rw [step]
    split_ifs <;> simp [StaysInLine]
  | rawString =>
    rw [step]
    split_ifs <;> simp [StaysInLine]
  | rawClosing left =>
    rw [step]
    split_ifs <;> simp [StaysInLine]

/-- No line break is hidden in a literal. -/
theorem keepsLines_glyphs {state : LiteralState} {text : List Char} (stays : state.StaysInLine text) :
    KeepsLines (state.glyphs text) := by
  induction text generalizing state with
  | nil => simp [KeepsLines, glyphs]
  | cons c rest ih =>
    -- The first character keeps its line, and leads to a state in which the others do.
    obtain ⟨here, later⟩ := step_staysInLine stays
    exact List.forall_mem_cons.mpr ⟨here, ih later⟩

end LiteralState

/-- No line break of code is hidden. -/
theorem keepsLines_ofCode (text : List Char) : KeepsLines (Glyph.ofCode text) :=
  -- At the start no escape is open.
  LiteralState.keepsLines_glyphs (by rintro (escape | escape) <;> cases escape)

namespace Member

/--
The name of the method that a declaration declares, and its offset in the declaration.

It fails if the declaration is cut inside a character.
-/
def methodNameFrom? (declaration : List Glyph) : Option (Option (List Char × Nat)) :=
  match textIndex? ['('] (maskedBytes declaration) with
  | none => some none
  | some paren => do
    let head ← before? paren declaration
    let text := Glyph.shownText head
    let first := ((words text).dropWhile fun word => modifiers.contains (String.ofList word)).head?
    if text.contains '=' || first.all fun word => nonMethodWords.contains (String.ofList word) then
      some none
    else
      match trailingName? text with
      | none => some none
      | some (before, name) =>
        -- The place of the name is counted in bytes, from the start of the declaration.
        let start := width (head.take before.length)
        let front ← before? start head
        if Segment.isBlankCode front || modifiers.contains (String.ofList name) ||
            String.ofList name == "fun" then some none
        else some (some (name, start))

/--
The members that the stretches of a body make up.

It fails if the code is cut inside a character or behind its end.
-/
def ofSpans? (code : List Glyph) (pending : List AnnotationUse) : List Segment.Span → Option (List Member)
  | [] => some []
  | span :: spans => do
    let segment ← slice? span.start span.stop code
    if Segment.isBlankCode segment then ofSpans? code (if span.opensBlock then [] else pending) spans
    else
      let (own, behind) ← AnnotationUse.leading? segment
      let start := span.start + behind
      let declaration ← slice? start span.stop code
      if Segment.isBlankCode declaration then
        ofSpans? code (if span.opensBlock then [] else pending ++ own) spans
      else
        let member ← match ← methodNameFrom? declaration with
          | some (name, offset) => some ⟨some name, lineAt code (start + offset), pending ++ own⟩
          | none =>
            -- A member without a name is on the line of its first visible character.
            let blank := declaration.takeWhile fun glyph => isBlank glyph.shown
            some ⟨none, lineAt code (start + width blank), []⟩
        let later ← ofSpans? code [] spans
        some (member :: later)

/-- What stands in front of a name is white space if what a search sees of it is. -/
theorem isBlankCode_take {head : List Glyph} {before : List Char}
    (isPrefix : before <+: Glyph.shownText head) :
    Segment.isBlankCode (head.take before.length) = before.all isBlank := by
  -- The first pieces are seen as the text in front of the name.
  have same : Glyph.shownText (head.take before.length) = before := by
    rw [Glyph.shownText, List.map_take]
    exact (List.prefix_iff_eq_take.mp isPrefix).symm
  calc Segment.isBlankCode (head.take before.length)
      = (Glyph.shownText (head.take before.length)).all isBlank := by
        rw [Segment.isBlankCode, Glyph.shownText, List.all_map]
        rfl
    _ = before.all isBlank := congrArg (List.all · isBlank) same

/-- The name of a method is found without fail, at the offset behind what stands in front of it. -/
theorem methodNameFrom?_eq (declaration : List Glyph) :
    methodNameFrom? declaration = some ((methodName? (Glyph.shownText declaration)).map
      fun (before, name) => (name, width (declaration.take before.length))) := by
  have bytes := textIndex?_bytes '(' [] (by decide) declaration
  rw [methodNameFrom?, bytes, methodName?]
  cases found : textIndex? ['('] (Glyph.shownText declaration) with
  | none =>
    rw [takeWhile_of_textIndex?_none found]
    simp
  | some index =>
    obtain ⟨taken, within⟩ := takeWhile_of_textIndex? found
    have head : (Glyph.shownText declaration).takeWhile (· != '(') =
        Glyph.shownText (declaration.take index) := by
      rw [taken, Glyph.shownText, Glyph.shownText, List.map_take]
    -- The parenthesis is found, so what is in front of it is not all there is.
    have shorter : (Glyph.shownText (declaration.take index)).length ≠
        (Glyph.shownText declaration).length := by
      rw [← head, taken, List.length_take]
      omega
    rw [head]
    simp only [Option.map_some, before?_take, Option.bind_eq_bind, Option.bind_some, decide_eq_false shorter,
      Bool.false_or]
    have long : (Glyph.shownText (declaration.take index)).length ≤ index := by
      rw [← head, taken, List.length_take]
      omega
    -- From here on both ask the same questions about the same text.
    cases (Glyph.shownText (declaration.take index)).contains '=' with
    | true => rfl
    | false =>
      cases ((words (Glyph.shownText (declaration.take index))).dropWhile fun word =>
          modifiers.contains (String.ofList word)).head? with
      | none => rfl
      | some first =>
        simp only [Option.all_some, Bool.false_or, Bool.false_eq_true, if_false, Option.bind_some]
        cases nonMethodWords.contains (String.ofList first) with
        | true => rfl
        | false =>
          cases trailing : trailingName? (Glyph.shownText (declaration.take index)) with
          | none => rfl
          | some parts =>
            obtain ⟨before, name⟩ := parts
            have isPrefix := trailingName?_isPrefix trailing
            have blank := isBlankCode_take isPrefix
            have same : (declaration.take index).take before.length = declaration.take before.length := by
              rw [List.take_take, Nat.min_eq_left (Nat.le_trans isPrefix.length_le long)]
            rw [same] at blank
            simp only [same, Option.bind_some, blank, Bool.false_eq_true, if_false]
            split <;> rfl

/-- The line of a place in a declaration is counted from the start of the segment, or of the code. -/
theorem lineAt_declaration {code front taken declaration head back : List Glyph}
    (keeps : KeepsLines code) (place : code = front ++ taken ++ declaration ++ back)
    (inFront : head <+: declaration) :
    lineAt code (width (front ++ taken) + width head) =
      Segment.lineBreaks front + 1 + Segment.lineBreaks (taken ++ declaration) -
        Segment.lineBreaks declaration + (Glyph.shownText head).count '\n' := by
  obtain ⟨tail, rfl⟩ := inFront
  have split : code = front ++ taken ++ head ++ (tail ++ back) := by
    rw [place]
    simp only [List.append_assoc]
  -- Line breaks are never hidden, so those seen and those there are the same.
  have inside : KeepsLines head := fun glyph listed => keeps glyph (by rw [split]; simp [listed])
  rw [← width_append, split, lineAt_width, inside.count_shownText]
  simp only [Segment.lineBreaks_append]
  omega

/-- The members are read without fail from the stretches at which the segments stand. -/
theorem ofSpans?_eq {code before : List Glyph} (keeps : KeepsLines code) {segments : List Segment}
    {spans : List Segment.Span}
    (located : List.Forall₂ (Segment.IsAt code before (Segment.lineBreaks before + 1)) segments spans)
    (pending : List AnnotationUse) :
    ofSpans? code pending spans = some (ofSegments pending segments) := by
  induction located generalizing pending with
  | nil => rfl
  | @cons segment span segments spans here later ih =>
    obtain ⟨front, back, whole, rfl, line⟩ := here
    -- The span cuts out just the code of the segment.
    have cut : slice? (width (before ++ front)) (width (before ++ front) + width segment.code) code =
        some segment.code := by
      rw [whole]
      exact slice?_width _ _ _
    have isSuffix := AnnotationUse.leading_isSuffix segment.code
    obtain ⟨taken, parts, leading⟩ := AnnotationUse.leading?_eq segment.code
    rw [ofSpans?, cut, ofSegments]
    simp only [Option.bind_eq_bind, Option.bind_some]
    cases blank : Segment.isBlankCode segment.code with
    | true =>
      have own := Entity.leading_blank blank
      have rest : Segment.isBlankCode (AnnotationUse.leading segment.code).2 = true :=
        List.all_eq_true.mpr fun glyph listed => List.all_eq_true.mp blank glyph (isSuffix.subset listed)
      rw [if_pos rfl, if_pos rest, own, List.append_nil]
      exact ih _
    | false =>
      generalize AnnotationUse.leading segment.code = read at parts leading
      obtain ⟨own, declaration⟩ := read
      simp only at parts leading ⊢
      have start : width (before ++ front) + width taken = width (before ++ front ++ taken) :=
        (width_append _ _).symm
      have place : code = before ++ front ++ taken ++ declaration ++ back := by
        rw [whole, parts, List.append_assoc _ taken]
      have declared : slice? (width (before ++ front ++ taken))
          (width (before ++ front) + width segment.code) code = some declaration := by
        rw [← start, whole, parts]
        exact slice?_behind _ _ _ _
      -- Counting breaks from the start of the text or from that of the segment is the same.
      have lines : ∀ head, head <+: declaration →
          lineAt code (width (before ++ front ++ taken) + width head) =
            segment.line + Segment.lineBreaks segment.code - Segment.lineBreaks declaration +
              (Glyph.shownText head).count '\n' := by
        intro head inFront
        rw [lineAt_declaration keeps place inFront, Segment.lineBreaks_append before, line, parts,
          Nat.add_right_comm (Segment.lineBreaks before)]
      simp only [leading, Option.bind_some, start, declared, Bool.false_eq_true, if_false]
      split
      · exact ih _
      · simp only [methodNameFrom?_eq, Option.bind_some]
        cases named : methodName? (Glyph.shownText declaration) with
        | none =>
          have counted := lines _ (List.takeWhile_prefix fun glyph => isBlank glyph.shown)
          have spaces : Glyph.shownText (declaration.takeWhile fun glyph => isBlank glyph.shown) =
              (Glyph.shownText declaration).takeWhile isBlank := by
            rw [Glyph.shownText, Glyph.shownText, List.takeWhile_map]
            rfl
          simp only [Option.map_none, counted, spaces, ih, Option.bind_some]
        | some method =>
          obtain ⟨ahead, name⟩ := method
          have counted := lines _ (List.take_prefix ahead.length declaration)
          have same : Glyph.shownText (declaration.take ahead.length) = ahead := by
            rw [Glyph.shownText, List.map_take]
            exact (List.prefix_iff_eq_take.mp (methodName?_isPrefix named)).symm
          simp only [Option.map_some, counted, same, ih, Option.bind_some]

end Member

end IndexAudit
