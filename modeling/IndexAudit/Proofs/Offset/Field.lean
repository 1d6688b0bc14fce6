import IndexAudit.Proofs.Entity.Body
import IndexAudit.Proofs.Offset.Argument
import IndexAudit.Proofs.Offset.Member

/-!
The fields of an entity read at byte offsets.

Modifiers are cut off one after another, and each cut lies behind the characters of a word.
-/

namespace IndexAudit

namespace Entity

/-- Code without the white space at either end. -/
def trimCode (code : List Glyph) : List Glyph :=
  ((code.dropWhile fun glyph => isBlank glyph.shown).reverse.dropWhile fun glyph =>
    isBlank glyph.shown).reverse

/-- The characters of an identifier at the start of code. -/
def wordCode (code : List Glyph) : List Glyph :=
  code.takeWhile fun glyph => isIdentifierChar glyph.shown

/-- The name of a field declared by its type and name; it fails if the type is cut inside a character. -/
def typedNameFrom? (code : List Glyph) : Option (Option (List Char)) :=
  let declarator := code.takeWhile (·.shown != '=')
  let text := Glyph.shownText declarator
  if text.contains '(' || text.contains ':' then some none
  else
    match trailingName? text with
    | none => some none
    | some (type, name) =>
      -- The type is cut off by the offset at which the name begins.
      (before? (width (declarator.take type.length)) declarator).map fun front =>
        if Segment.isBlankCode front then none else some name

/--
The name of the field that a declaration declares, if it declares one.

It fails if the declaration is cut inside a character, or if there are more steps than there is fuel
for.
-/
def fieldNameFrom? : Nat → List Glyph → Option (Option (List Char))
  | 0, _ => none
  | fuel + 1, code => do
    let size := width (wordCode code)
    let word ← before? size code
    let text := String.ofList (Glyph.shownText word)
    if nonFieldWords.contains text then some none
    else if fieldModifiers.contains text then
      let behind ← from? size code
      fieldNameFrom? fuel (behind.dropWhile fun glyph => isBlank glyph.shown)
    else
      match propertyName? (Glyph.shownText code) with
      | some name => some (some name)
      | none => typedNameFrom? code

/-- The name that the first of a field's annotations of one kind with a name gives. -/
def explicitColumnFrom? (kind : String) (notes : List AnnotationUse) : Option (Option (List Char)) := do
  let named ← notes.findSomeM? fun note =>
    if note.name = kind.toList then note.stringArgumentFrom? "name".toList else some none
  some do
    let clean := cleanNameChars (← named)
    if clean.isEmpty then none else some clean

/-- The column behind a field; reading the arguments of an annotation may fail. -/
def columnFrom? (field : List Char) (notes : List AnnotationUse) : Option (Option String) := do
  let column ← explicitColumnFrom? "Column" notes
  let joinColumn ← explicitColumnFrom? "JoinColumn" notes
  some <| match column.or joinColumn with
    | some column => some (String.ofList column)
    | none =>
      if notes.any fun note => unmappedAnnotations.contains (String.ofList note.name) then none
      else some (snakeCase (String.ofList field))

/-- The mapped fields after one more member between two offsets, which earlier annotations may belong to. -/
def addMemberFrom? (code : List Glyph) (inherited : List AnnotationUse)
    (fields : List (String × String)) (start stop : Nat) : Option (List (String × String)) := do
  let segment ← slice? start stop code
  let (own, behind) ← AnnotationUse.leading? segment
  let declaration ← slice? (start + behind) stop code
  -- A modifier takes a character at least, so the length of the code is fuel enough.
  match ← fieldNameFrom? (declaration.length + 1) (trimCode declaration) with
  | none => some fields
  | some field =>
    match ← columnFrom? field (inherited ++ own) with
    | none => some fields
    | some column => some (putEntry (String.ofList field) column fields)

/-- The mapped fields after the stretches of a class body; cutting them out may fail. -/
def addMembersFrom? (code : List Glyph) (pending : List AnnotationUse)
    (fields : List (String × String)) : List Segment.Span → Option (List (String × String))
  | [] => some fields
  | span :: spans =>
    if span.opensBlock then addMembersFrom? code [] fields spans
    else do
      let segment ← slice? span.start span.stop code
      if Segment.isBlankCode segment then addMembersFrom? code pending fields spans
      else
        -- The reader says how far the annotations go, and the declaration is cut out from there.
        let (own, behind) ← AnnotationUse.leading? segment
        let declaration ← slice? (span.start + behind) span.stop code
        if Segment.isBlankCode declaration then addMembersFrom? code (pending ++ own) fields spans
        else
          let added ← addMemberFrom? code pending fields span.start span.stop
          addMembersFrom? code [] added spans

/-- A search sees code without white space at either end as its text without that. -/
theorem shownText_trimCode (code : List Glyph) :
    Glyph.shownText (trimCode code) = trim (Glyph.shownText code) := by
  -- Trimming a list commutes with showing each of its pieces.
  simp only [trimCode, trim, trimStart, dropEndWhile, Glyph.shownText, List.dropWhile_map,
    ← List.map_reverse]
  rfl

/-- What a search sees of the characters of an identifier is the first word of the text. -/
theorem shownText_wordCode (code : List Glyph) :
    Glyph.shownText (wordCode code) = firstWord (Glyph.shownText code) := by
  -- Taking characters commutes with showing each of them.
  rw [wordCode, firstWord, Glyph.shownText, Glyph.shownText, List.takeWhile_map]
  rfl

/-- The name of a field behind its type is found without fail. -/
theorem typedNameFrom?_eq (code : List Glyph) :
    typedNameFrom? code = some (typedName? (Glyph.shownText code)) := by
  have declarator : (Glyph.shownText code).takeWhile (· != '=') =
      Glyph.shownText (code.takeWhile (·.shown != '=')) := by
    rw [Glyph.shownText, Glyph.shownText, List.takeWhile_map]
    rfl
  rw [typedNameFrom?, typedName?, declarator]
  simp only [before?_take, Option.map_some]
  split
  · rfl
  -- The name and what is in front of it are at the start of the declarator.
  · cases trailing : trailingName? (Glyph.shownText (code.takeWhile (·.shown != '='))) with
    | none => rfl
    | some parts =>
      simp only [Member.isBlankCode_take (Member.trailingName?_isPrefix trailing)]
      rfl

/-- The name of a field is found without fail. -/
theorem fieldNameFrom?_eq {fuel : Nat} {code : List Glyph} (enough : code.length < fuel) :
    fieldNameFrom? fuel code = some (fieldName? (Glyph.shownText code)) := by
  induction fuel generalizing code with
  | zero => omega
  | succ fuel ih =>
    have before : before? (width (wordCode code)) code = some (wordCode code) := before?_takeWhile _ _
    have behind := from?_takeWhile (fun glyph => isIdentifierChar glyph.shown) code
    have whole : wordCode code ++ code.dropWhile (fun glyph => isIdentifierChar glyph.shown) = code :=
      List.takeWhile_append_dropWhile
    rw [fieldNameFrom?, fieldName?.eq_def]
    simp only [before, Option.bind_eq_bind, Option.bind_some, ← shownText_wordCode]
    by_cases excluded : nonFieldWords.contains (String.ofList (Glyph.shownText (wordCode code))) = true
    · rw [if_pos excluded, if_pos excluded]
    rw [if_neg excluded, if_neg excluded]
    by_cases modifier : fieldModifiers.contains (String.ofList (Glyph.shownText (wordCode code))) = true
    · -- No modifier is empty, so that each one takes something off.
      have filled : Glyph.shownText (wordCode code) ≠ [] := by
        intro none
        rw [none] at modifier
        exact absurd modifier (by decide)
      have rest : Glyph.shownText ((code.dropWhile fun glyph => isIdentifierChar glyph.shown).dropWhile
          fun glyph => isBlank glyph.shown) =
          trimStart ((Glyph.shownText code).drop (Glyph.shownText (wordCode code)).length) := by
        have shown : Glyph.shownText (wordCode code) ++ Glyph.shownText
            (code.dropWhile fun glyph => isIdentifierChar glyph.shown) = Glyph.shownText code := by
          rw [Glyph.shownText, Glyph.shownText, ← List.map_append, whole]
          rfl
        rw [← shown, List.drop_left, trimStart, Glyph.shownText, Glyph.shownText, List.dropWhile_map]
        rfl
      rw [if_pos modifier, if_pos ⟨modifier, filled⟩, wordCode, behind, Option.bind_some, ih, rest]
      · rfl
      · have size := congrArg List.length whole
        have shorter := dropWhile_length (fun glyph : Glyph => isBlank glyph.shown)
          (code.dropWhile fun glyph => isIdentifierChar glyph.shown)
        have positive := List.length_pos_iff.mpr filled
        rw [Glyph.shownText, List.length_map] at positive
        rw [List.length_append] at size
        omega
    · rw [if_neg modifier, if_neg fun both => modifier both.1, typedNameFrom?_eq]
      cases propertyName? (Glyph.shownText code) <;> rfl

/-- The column that an annotation names is read without fail. -/
theorem explicitColumnFrom?_eq (kind : String) (notes : List AnnotationUse) :
    explicitColumnFrom? kind notes = some (explicitColumn? kind notes) := by
  -- No reading of an argument fails, so the search may be one without failures.
  have total : (fun note : AnnotationUse =>
      if note.name = kind.toList then note.stringArgumentFrom? "name".toList else some none) =
      fun note => some (if note.name = kind.toList then note.stringArgument "name".toList else none) := by
    funext note
    rw [AnnotationUse.stringArgumentFrom?_eq]
    split <;> rfl
  rw [explicitColumnFrom?, total, explicitColumn?]
  have found : ∀ read : AnnotationUse → Option (List Char),
      notes.findSomeM? (fun note => some (read note)) = some (notes.findSome? read) :=
    fun _ => List.findSomeM?_pure
  rw [found]
  rfl

/-- The column behind a field is found without fail. -/
theorem columnFrom?_eq (field : List Char) (notes : List AnnotationUse) :
    columnFrom? field notes = some (column? field notes) := by
  -- Either annotation is read without fail.
  rw [columnFrom?, explicitColumnFrom?_eq, explicitColumnFrom?_eq]
  rfl

/-- A member is added without fail where it stands. -/
theorem addMemberFrom?_eq (front segment back : List Glyph) (inherited : List AnnotationUse)
    (fields : List (String × String)) :
    addMemberFrom? (front ++ segment ++ back) inherited fields (width front)
        (width front + width segment) = some (addMember inherited segment fields) := by
  obtain ⟨taken, parts, leading⟩ := AnnotationUse.leading?_eq segment
  rw [addMemberFrom?, addMember, slice?_width]
  generalize AnnotationUse.leading segment = read at parts leading
  obtain ⟨own, declaration⟩ := read
  simp only at parts leading ⊢
  -- Behind its own annotations, the member ends where the stretch does.
  have cut : slice? (width front + width taken) (width front + width segment) (front ++ segment ++ back) =
      some declaration := by
    rw [parts]
    exact slice?_behind front taken declaration back
  -- Trimming only shortens, so the search for a name ends.
  have short : (trimCode declaration).length < declaration.length + 1 := by
    refine Nat.lt_succ_of_le ?_
    rw [trimCode, List.length_reverse]
    refine Nat.le_trans (dropWhile_length _ _) ?_
    rw [List.length_reverse]
    exact dropWhile_length _ _
  simp only [leading, cut, fieldNameFrom?_eq short, shownText_trimCode, columnFrom?_eq,
    Option.bind_eq_bind, Option.bind_some]
  cases fieldName? (trim (Glyph.shownText declaration)) with
  | none => rfl
  | some field =>
    dsimp only
    cases column? field (inherited ++ own) <;> rfl

/-- Empty stretches at the end of a body hold no members. -/
theorem addMembers_append_empty {ending : List Segment} (empty : ∀ segment ∈ ending, Segment.IsEmpty segment)
    (pending : List AnnotationUse) (fields : List (String × String)) (segments : List Segment) :
    addMembers pending fields (segments ++ ending) = addMembers pending fields segments := by
  induction segments generalizing pending fields with
  | nil =>
    induction ending with
    | nil => rfl
    | cons segment ending ih =>
      obtain ⟨⟨none, noBlock⟩, later⟩ := List.forall_mem_cons.mp empty
      -- An empty segment at the end declares nothing and owns no block.
      have blank : Segment.isBlankCode segment.code = true := by rw [none]; rfl
      simp only [List.nil_append, addMembers, noBlock, blank, Bool.false_eq_true, if_false, if_true]
      exact ih later
  | cons segment segments ih => simp only [List.cons_append, addMembers, ih]

/-- The members of a class body are added without fail from the stretches at which they stand. -/
theorem addMembersFrom?_eq {code before : List Glyph} {line : Nat} {segments : List Segment}
    {spans : List Segment.Span}
    (located : List.Forall₂ (Segment.IsAt code before line) segments spans)
    (pending : List AnnotationUse) (fields : List (String × String)) :
    addMembersFrom? code pending fields spans = some (addMembers pending fields segments) := by
  induction located generalizing pending fields with
  | nil => rfl
  | @cons segment span segments spans here later ih =>
    obtain ⟨front, back, whole, rfl, -⟩ := here
    rw [addMembersFrom?, addMembers]
    cases segment.opensBlock with
    -- The annotations that wait for a member do not wait beyond a block.
    | true => exact ih _ _
    | false =>
      have cut : slice? (width (before ++ front)) (width (before ++ front) + width segment.code) code =
          some segment.code := by
        rw [whole]
        exact slice?_width _ _ _
      have added := addMemberFrom?_eq (before ++ front) segment.code back pending fields
      rw [← whole] at added
      obtain ⟨taken, parts, leading⟩ := AnnotationUse.leading?_eq segment.code
      generalize AnnotationUse.leading segment.code = read at parts leading
      obtain ⟨own, declaration⟩ := read
      simp only at parts leading ⊢
      -- What is left of the stretch behind its annotations is cut out of the code as well.
      have declared : slice? (width (before ++ front) + width taken)
          (width (before ++ front) + width segment.code) code = some declaration := by
        rw [whole, parts]
        exact slice?_behind _ _ _ _
      simp only [cut, leading, declared, added, ih, Bool.false_eq_true, if_false, Option.bind_eq_bind,
        Option.bind_some]
      split
      · rfl
      · split <;> rfl

end Entity

end IndexAudit
