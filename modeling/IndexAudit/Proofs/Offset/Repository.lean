import IndexAudit.Proofs.Offset.Argument
import IndexAudit.Proofs.Offset.Derived
import IndexAudit.Proofs.Offset.Member
import IndexAudit.Proofs.Offset.Query

/-!
The query columns of a repository read at byte offsets.

The header and the body of a repository are cut out between the offsets of its brackets. Names of
methods consist of characters that count towards a word, which makes them ASCII texts.
-/

namespace IndexAudit

namespace Member

/-- The name at the end of a text consists of characters that count towards a word. -/
theorem isWordChar_of_trailingName? {text before name : List Char}
    (found : trailingName? text = some (before, name)) : ∀ c ∈ name, isWordChar c = true := by
  -- A name is a suffix of the last word without the digits at its front.
  simp only [trailingName?] at found
  split at found
  · cases found
  · cases found
    intro c listed
    have word := (List.dropWhile_suffix Char.isDigit).subset listed
    exact List.mem_takeWhile_imp (List.mem_reverse.mp word)

/-- The name of a method consists of characters that count towards a word. -/
theorem isWordChar_of_methodName? {text before name : List Char}
    (found : methodName? text = some (before, name)) : ∀ c ∈ name, isWordChar c = true :=
  isWordChar_of_trailingName? (trailingName?_of_methodName? found)

/-- The names of the members of a body are in ASCII. -/
theorem isAscii_ofSegments (pending : List AnnotationUse) (segments : List Segment) :
    ∀ member ∈ ofSegments pending segments, ∀ name ∈ member.name, IsAscii name := by
  -- Annotations without a member are carried over, and names come from declarations alone.
  induction segments generalizing pending with
  | nil => simp [ofSegments]
  | cons segment rest ih =>
    rw [ofSegments]
    generalize AnnotationUse.leading segment.code = parts
    obtain ⟨own, declaration⟩ := parts
    dsimp only
    split
    · exact ih _
    · split
      · rename_i before name found
        refine List.forall_mem_cons.mpr ⟨?_, ih _⟩
        rintro _ ⟨⟩ c listed
        exact toNat_of_isWordChar (isWordChar_of_methodName? found c listed)
      · exact List.forall_mem_cons.mpr ⟨by simp, ih _⟩

/-- Empty segments at the end of a body make up no members. -/
theorem ofSegments_append {ending : List Segment} (empty : ∀ segment ∈ ending, Segment.IsEmpty segment)
    (pending : List AnnotationUse) (segments : List Segment) :
    ofSegments pending (segments ++ ending) = ofSegments pending segments := by
  -- Whatever annotations are pending at the end, an empty segment adds no member for them.
  induction segments generalizing pending with
  | nil =>
    induction ending generalizing pending with
    | nil => rfl
    | cons segment ending ih =>
      obtain ⟨⟨none, -⟩, later⟩ := List.forall_mem_cons.mp empty
      have blank : Segment.isBlankCode segment.code = true := by rw [none]; rfl
      have rest := (AnnotationUse.leading_isSuffix segment.code).subset
      have blankRest : Segment.isBlankCode (AnnotationUse.leading segment.code).2 = true :=
        List.all_eq_true.mpr fun glyph listed => List.all_eq_true.mp blank glyph (rest listed)
      rw [List.nil_append, ofSegments, ofSegments]
      generalize AnnotationUse.leading segment.code = parts at blankRest
      obtain ⟨own, declaration⟩ := parts
      dsimp only at blankRest ⊢
      rw [if_pos blankRest]
      exact ih later _
  | cons segment segments ih =>
    simp only [List.cons_append, ofSegments, ih]

end Member

namespace Repository

/-- The columns that a derived query refers to; taking its name apart may fail. -/
def derivedColumnsFrom? (mapping : TableMapping) (method : List Char) : Option (List ColumnReference) :=
  (DerivedQuery.ofMethodNameFrom? (fun field => (mapping.column? field).isSome) method).map fun
    | some query => query.properties.map fun field => ⟨mapping.tableName, mapping.resolve field⟩
    | none => []

/-- The columns that a method refers to, and their language; reading its query may fail. -/
def methodColumnsFrom? (mappings : Mappings) (mapping : TableMapping) (method : List Char)
    (notes : List AnnotationUse) : Option (QueryType × List ColumnReference) :=
  let native := "NativeQuery".toList
  match notes.find? fun note => note.name == "Query".toList || note.name == native with
  | none => (derivedColumnsFrom? mapping method).map (.derived, ·)
  | some query => do
    match ← query.valueFrom? with
    | none => some (.jpql, [])
    | some text =>
      -- The flag is read only if the name of the annotation does not settle it.
      let isNative ← if query.name == native then some true else query.flagFrom? "nativeQuery".toList
      if isNative then
        (Native.columnsFrom? mapping.tableName (String.ofList text)).map (.native, ·)
      else (Jpql.columnsFrom? mappings (String.ofList text)).map (.jpql, ·)

/-- The query columns of the members of a repository; reading one of their queries may fail. -/
def memberColumnsFrom? (file : String) (repository : List Char) (mappings : Mappings)
    (mapping : TableMapping) (pending : List Suppression) : List Member → Option (List QueryColumn)
  | [] => some []
  | member :: rest => do
    let (suppression, left) := Suppression.take pending member.line
    let here ← match member.name with
      | none => some []
      | some name =>
        (methodColumnsFrom? mappings mapping name member.annotations).map fun (queryType, references) =>
          (keptColumns suppression [] references).map fun reference =>
            { table := reference.table
              column := reference.column
              source := String.ofList (repository ++ '.' :: name)
              file := file
              line := member.line
              queryType := queryType }
    let later ← memberColumnsFrom? file repository mappings mapping left rest
    some (here ++ later)

/--
The members of the body that opens at an offset.

It fails if an index is out of range, or if the code is cut inside a character or behind its end.
-/
def membersFrom? (code : List Glyph) (opening : Nat) : Option (List Member) :=
  let stop := match Nest.closeIndex Glyph.bracketOf 0 ((maskedBytes code).drop opening) with
    | some close => opening + close
    | none => width code
  (Segment.walk? Member.runsOn code stop (width code + 1) (opening + 1) 0 (opening + 1)).bind
    (Member.ofSpans? code [])

/--
The query columns of a source text.

It fails if any search in the text reads an index out of range or cuts inside a character.
-/
def columnsFrom? (file : String) (mappings : Mappings) (text : List Char) : Option (List QueryColumn) :=
  let lines := SourceLine.ofText text
  let code := Glyph.ofCode (SourceLine.codeText lines)
  match Declaration.find ["interface".toList, "class".toList] none code with
  | none => some []
  | some declaration => do
    let start := width code - width declaration.after
    let behind ← from? start code
    match textIndex? ['\x7b'] (maskedBytes behind) with
    | none => some []
    | some size =>
      let header ← slice? start (start + size) code
      match (entityName? false (Glyph.shownText header)).bind mappings.find with
      | none => some []
      | some mapping =>
        let members ← membersFrom? code (start + size)
        memberColumnsFrom? file declaration.name mappings mapping (Suppression.ofLines lines) members

/-- The columns of a derived query are found without fail. -/
theorem derivedColumnsFrom?_eq (mapping : TableMapping) {method : List Char} (ascii : IsAscii method) :
    derivedColumnsFrom? mapping method = some (derivedColumns mapping method) := by
  -- The method name is analyzed without fail, with the same result.
  obtain ⟨query, running, found⟩ :=
    DerivedQuery.ofMethodNameFrom?_eq (fun field => (mapping.column? field).isSome) ascii
  rw [derivedColumnsFrom?, found, derivedColumns, running]
  cases query <;> rfl

/-- The columns of a method are found without fail. -/
theorem methodColumnsFrom?_eq (mappings : Mappings) (mapping : TableMapping) {method : List Char}
    (ascii : IsAscii method) (notes : List AnnotationUse) :
    methodColumnsFrom? mappings mapping method notes =
      some (methodColumns mappings mapping method notes) := by
  simp only [methodColumnsFrom?, methodColumns, derivedColumnsFrom?_eq mapping ascii,
    AnnotationUse.valueFrom?_eq, AnnotationUse.flagFrom?_eq, Native.columnsFrom?_eq,
    Jpql.columnsFrom?_eq, Option.map_some, Option.bind_eq_bind, Option.bind_some]
  -- Each way to find the columns of a method has been shown not to fail.
  cases notes.find? fun note => note.name == "Query".toList || note.name == "NativeQuery".toList with
  | none => rfl
  | some query =>
    dsimp only
    cases query.value with
    | none => rfl
    | some text =>
      cases query.name == "NativeQuery".toList with
      | true => rfl
      | false => cases query.flag "nativeQuery".toList <;> rfl

/-- The query columns of members whose names are in ASCII are found without fail. -/
theorem memberColumnsFrom?_eq (file : String) (repository : List Char) (mappings : Mappings)
    (mapping : TableMapping) (pending : List Suppression) {members : List Member}
    (ascii : ∀ member ∈ members, ∀ name ∈ member.name, IsAscii name) :
    memberColumnsFrom? file repository mappings mapping pending members =
      some (memberColumns file repository mappings mapping pending members) := by
  induction members generalizing pending with
  | nil => rfl
  | cons member rest ih =>
    obtain ⟨here, later⟩ := List.forall_mem_cons.mp ascii
    -- A member without a name adds nothing, and any other adds the columns of its method.
    rw [memberColumnsFrom?, memberColumns]
    simp only [ih _ later]
    cases named : member.name with
    | none => rfl
    | some name =>
      simp only [methodColumnsFrom?_eq mappings mapping (here name named), Option.map_some]
      rfl

/-- The names of the members of a body are in ASCII. -/
theorem isAscii_members (line : Nat) (body : List Glyph) :
    ∀ member ∈ members line body, ∀ name ∈ member.name, IsAscii name :=
  -- Members are read off segments, where all names are in ASCII.
  Member.isAscii_ofSegments _ _

/-- The members of a body are read without fail, up to the bracket that closes it. -/
theorem membersFrom?_eq (front rest : List Glyph) {glyph : Glyph}
    (keeps : KeepsLines (front ++ glyph :: rest)) (opens : glyph.shown = '{') :
    membersFrom? (front ++ glyph :: rest) (width front) =
      some (members (SourceLine.numberAfter (Glyph.text (front ++ [glyph])))
        (match Glyph.closeIndex (glyph :: rest) with
        | some close => rest.take (close - 1)
        | none => rest)) := by
  have one : Sized.size glyph = 1 := size_of_shown (by decide) (by decide) opens
  have bracket : Glyph.bracketOf glyph.shown = .opens := by simp [Glyph.bracketOf, opens]
  have start : width front + 1 = width (front ++ [glyph]) := by
    rw [width_append, width_cons, one, width_nil]
  -- The walk reaches from the opening bracket to the end of what is enclosed.
  have walked : ∀ inside back, rest = inside ++ back → Segment.IsEnclosed inside back →
      (Segment.walk? Member.runsOn (front ++ glyph :: rest) (width (front ++ [glyph]) + width inside)
        (width (front ++ glyph :: rest) + 1) (width front + 1) 0 (width front + 1)).bind
        (Member.ofSpans? (front ++ glyph :: rest) []) =
      some (members (SourceLine.numberAfter (Glyph.text (front ++ [glyph]))) inside) := by
    rintro inside back rfl enclosed
    have whole : front ++ glyph :: (inside ++ back) = front ++ [glyph] ++ (inside ++ back) := by simp
    obtain ⟨spans, segments, ending, found, collected, empty, located⟩ :=
      Segment.walk?_body Member.runsOn whole (Segment.lineBreaks (front ++ [glyph]) + 1) enclosed
        (width (front ++ glyph :: (inside ++ back)) + 1) (by simp; omega)
    have line : SourceLine.numberAfter (Glyph.text (front ++ [glyph])) =
        Segment.lineBreaks (front ++ [glyph]) + 1 := rfl
    rw [start, found, Option.bind_some, Member.ofSpans?_eq keeps located, members, line, collected,
      Member.ofSegments_append empty]
  rw [membersFrom?, drop_maskedBytes]
  rcases closeIndex_cases bracket one rest with ⟨unclosed, bytes⟩ | ⟨inside, closing, after, encloses⟩
  · have reached := walked rest [] (List.append_nil _).symm (.inl rfl)
    rw [← width_append, List.append_assoc, List.singleton_append] at reached
    simp only [bytes, unclosed, reached]
  · have reached := walked inside (closing :: after) encloses.code (Segment.isEnclosed_of_encloses encloses bracket)
    have stop : width front + (width inside + 1) = width (front ++ [glyph]) + width inside := by
      rw [← start]
      omega
    have kept : rest.take (inside.length + 1 - 1) = inside := by
      rw [encloses.code, Nat.add_sub_cancel, List.take_left]
    simp only [encloses.offset, encloses.index, stop, reached, kept]

/-- The query columns of a source text are found without fail. -/
theorem columnsFrom?_eq (file : String) (mappings : Mappings) (text : List Char) :
    columnsFrom? file mappings text = some (columns file mappings text) := by
  have keeps := keepsLines_ofCode (SourceLine.codeText (SourceLine.ofText text))
  rw [columnsFrom?, columns]
  generalize Glyph.ofCode (SourceLine.codeText (SourceLine.ofText text)) = code at keeps ⊢
  dsimp only
  -- Both go through the same steps; where one has an offset, the other has what stands behind it.
  cases declared : Declaration.find ["interface".toList, "class".toList] none code with
  | none => rfl
  | some declaration =>
    obtain ⟨head, whole⟩ := Declaration.find_isSuffix declared
    have start : width code - width declaration.after = width head := by
      rw [← whole, width_append, Nat.add_sub_cancel]
    have behind : from? (width head) code = some declaration.after := by
      rw [← whole]
      exact from?_width _ _
    simp only [start, behind, Option.bind_eq_bind, Option.bind_some]
    rcases textIndex?_cases (c := '\x7b') (by decide) (by decide) declaration.after with
      ⟨bytes, left⟩ | ⟨opening, rest, opens, left, bytes⟩
    · simp only [bytes, left]
      rfl
    · obtain ⟨header, taken⟩ : ∃ header, declaration.after.takeWhile (·.shown != '\x7b') = header :=
        ⟨_, rfl⟩
      have parts : declaration.after = header ++ opening :: rest := by
        rw [← taken, ← left, List.takeWhile_append_dropWhile]
      rw [taken] at bytes
      have cut : slice? (width head) (width head + width header) code = some header := by
        rw [← whole, parts, ← List.append_assoc]
        exact slice?_width _ _ _
      simp only [bytes, left, taken, cut, Option.bind_some, List.isEmpty_cons, Bool.false_eq_true, if_false]
      cases named : entityName? false (Glyph.shownText header) with
      | none => rfl
      | some entity =>
        simp only [Option.bind_some]
        cases mapped : mappings.find entity with
        | none => rfl
        | some mapping =>
          have place : code = head ++ header ++ opening :: rest := by
            rw [← whole, parts, List.append_assoc]
          have members := membersFrom?_eq (head ++ header) rest (place ▸ keeps) opens
          rw [← place, width_append] at members
          simp only [members, Option.bind_some]
          -- The line of the body is counted in the code up to its brace.
          have before : code.take (code.length - rest.length) = head ++ header ++ [opening] := by
            have split : code = (head ++ header ++ [opening]) ++ rest := by simp [place]
            rw [split, List.length_append, Nat.add_sub_cancel, List.take_left]
          rw [memberColumnsFrom?_eq _ _ _ _ _ (isAscii_members _ _), List.drop_succ_cons,
            List.drop_zero, before]
          rfl

end Repository

end IndexAudit
