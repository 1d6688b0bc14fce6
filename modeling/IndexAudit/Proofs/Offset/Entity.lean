import IndexAudit.Proofs.Offset.Field
import IndexAudit.Proofs.Offset.Heading

/-!
The mapping of an entity class read at byte offsets.

The table is read in front of the class, and the fields between the offsets of its parameters and of
its body.
-/

namespace IndexAudit

/-- The last annotation of a name begins with its at sign. -/
theorem AnnotationUse.drop_of_lastMarkerIndex? {word : List Char} {code : List Glyph} {index : Nat}
    (found : lastMarkerIndex? word code = some index) :
    ∃ glyph rest, code.drop index = glyph :: rest ∧ glyph.shown = '@' := by
  induction code generalizing index with
  | nil => cases found
  | cons glyph rest ih =>
    rw [lastMarkerIndex?] at found
    -- A later one is preferred, and only without one this place counts.
    split at found
    · rename_i later behind
      cases found
      exact ih behind
    · split at found
      · rename_i marker
        cases found
        refine ⟨glyph, rest, rfl, ?_⟩
        by_contra other
        simp [afterMarker?, other] at marker
      · cases found

namespace Entity

/-- The table that the last `@Table` in front of an offset names; reading it may fail. -/
def tableNameFrom? (code : List Glyph) (offset : Nat) : Option (Option (List Char)) := do
  let before ← before? offset code
  match AnnotationUse.lastMarkerIndex? "Table".toList before with
  | none => some none
  | some index =>
    -- The annotation is read from the whole text, as its arguments may run on behind the class.
    let behind ← from? (width (before.take index)) code
    let (notes, _) ← AnnotationUse.leading? behind
    match notes.head? with
    | none => some none
    | some note => (note.stringArgumentFrom? "name".toList).map fun named => do
      let clean := cleanNameChars (← named)
      if clean.isEmpty then none else some clean

/-- The name and the table of the first entity class, and the offset behind the name. -/
def classFrom? (code : List Glyph) : Option (Option (List Char × List Char × Nat)) :=
  match AnnotationUse.findMarker "Entity".toList code with
  | none => some none
  | some (_, behind) => do
    let marked := width code - width behind
    let front ← before? marked code
    let later ← from? marked code
    -- The last character of the marker counts as the one in front.
    match Declaration.find classKeywords (front.getLast?.map (·.shown)) later with
    | none => some none
    | some declaration =>
      match ← tableNameFrom? code (marked + width declaration.before) with
      | none => some none
      | some table => some (some (declaration.name, table, width code - width declaration.after))

/-- The fields that the parameters between two offsets declare; cutting them out may fail. -/
def parameterFieldsFrom? (code : List Glyph) : Option (Nat × Nat) → Option (List (String × String))
  | none => some []
  | some (start, stop) => (parts? ',' true start stop code).bind fun parts =>
    parts.foldlM (fun fields part => addMemberFrom? code [] fields part.1.1 part.1.2) []

/-- The offset behind the parameters of a class, or behind its name if it has none. -/
def tailOffset (header : Nat) : Option (Nat × Nat) → Nat
  | none => header
  | some (_, stop) => stop + 1

/-- The fields after the members of a body between two offsets; cutting them out may fail. -/
def bodyFieldsFrom? (code : List Glyph) (fields : List (String × String)) :
    Option (Nat × Nat) → Option (List (String × String))
  | none => some fields
  | some (start, stop) =>
    (Segment.walk? (fun _ => false) code stop (width code + 1) start 0 start).bind
      (addMembersFrom? code [] fields)

/--
The mapping that a source text declares, if it declares an entity with a table.

It fails if any search in the text reads an index out of range or cuts inside a character.
-/
def mappingFrom? (text : List Char) : Option (Option TableMapping) := do
  let code := Glyph.ofCode (SourceLine.codeText (SourceLine.ofText text))
  match ← classFrom? code with
  | none => some none
  | some (name, table, header) =>
    let parameters ← parametersFrom? code (width code + 1) header
    let declared ← parameterFieldsFrom? code parameters
    let body ← classBodyFrom? code (tailOffset header parameters)
    let fields ← bodyFieldsFrom? code declared body
    some (some (.ofDeclared (String.ofList name) (String.ofList table) fields))

/-- The table in front of a class is read without fail. -/
theorem tableNameFrom?_eq (before behind : List Glyph) :
    tableNameFrom? (before ++ behind) (width before) = some (tableName? before (before ++ behind)) := by
  rw [tableNameFrom?, before?_width, tableName?]
  simp only [Option.bind_eq_bind, Option.bind_some]
  cases found : AnnotationUse.lastMarkerIndex? "Table".toList before with
  | none => rfl
  | some index =>
    obtain ⟨glyph, rest, start, sign⟩ := AnnotationUse.drop_of_lastMarkerIndex? found
    have parts : before ++ behind = before.take index ++ glyph :: (rest ++ behind) := by
      rw [← List.cons_append, ← start, ← List.append_assoc, List.take_append_drop]
    have within : index ≤ before.length := by
      by_contra further
      rw [List.drop_eq_nil_of_le (by omega)] at start
      cases start
    have left : (before ++ behind).drop index = glyph :: (rest ++ behind) := by
      rw [List.drop_append_of_le_length within, start, List.cons_append]
    have cut : from? (width (before.take index)) (before ++ behind) = some (glyph :: (rest ++ behind)) := by
      rw [parts]
      exact from?_width _ _
    -- The marker begins with its sign, so no space is skipped in front of it.
    have visible : AnnotationUse.skipSpacing (glyph :: (rest ++ behind)) = glyph :: (rest ++ behind) :=
      List.dropWhile_cons_of_neg (by rw [sign]; decide)
    obtain ⟨taken, -, leading⟩ := AnnotationUse.leading?_eq (glyph :: (rest ++ behind))
    rw [AnnotationUse.leading_eq, visible] at leading
    simp only [left, cut, Option.bind_some]
    cases read : AnnotationUse.read? (glyph :: (rest ++ behind)) with
    | none =>
      rw [read] at leading
      rw [leading]
      rfl
    | some found =>
      rw [read] at leading
      rw [leading]
      simp only [Option.bind_some, List.head?_cons, AnnotationUse.stringArgumentFrom?_eq, Option.map_some]
      rfl

/-- The first entity class is found without fail. -/
theorem classFrom?_eq (code : List Glyph) :
    (class? code = none ∧ classFrom? code = some none) ∨
      ∃ found front, class? code = some found ∧ code = front ++ found.behind ∧
        classFrom? code = some (some (found.name, found.table, width front)) := by
  rw [classFrom?, class?]
  cases marker : AnnotationUse.findMarker "Entity".toList code with
  | none => exact .inl ⟨rfl, rfl⟩
  | some parts =>
    obtain ⟨before, behind⟩ := parts
    obtain ⟨front, rfl⟩ := AnnotationUse.findMarker_isSuffix marker
    have marked : width (front ++ behind) - width behind = width front := by
      rw [width_append, Nat.add_sub_cancel]
    have taken : (front ++ behind).take ((front ++ behind).length - behind.length) = front := by
      rw [List.length_append, Nat.add_sub_cancel, List.take_left]
    simp only [marked, taken, before?_width, from?_width, Option.bind_eq_bind, Option.bind_some]
    -- Without a class behind the marker, or without a table for it, both find nothing.
    cases declared : Declaration.find classKeywords (front.getLast?.map (·.shown)) behind with
    | none => exact .inl ⟨rfl, rfl⟩
    | some declaration =>
      obtain ⟨tail, prefixed⟩ := Declaration.find_isPrefix declared
      obtain ⟨head, suffixed⟩ := Declaration.find_isSuffix declared
      have table := tableNameFrom?_eq (front ++ declaration.before) tail
      rw [List.append_assoc, prefixed, width_append] at table
      have header : width (front ++ behind) - width declaration.after = width (front ++ head) := by
        rw [← suffixed, ← List.append_assoc, width_append (front ++ head), Nat.add_sub_cancel]
      simp only [table, header, Option.bind_some]
      cases tableName? (front ++ declaration.before) (front ++ behind) with
      | none => exact .inl ⟨rfl, rfl⟩
      | some table =>
        exact .inr ⟨⟨declaration.name, table, declaration.after⟩, front ++ head, rfl,
          by rw [List.append_assoc, suffixed], rfl⟩

/-- Members are added without fail where the parts of code stand. -/
theorem foldlM_addMemberFrom? {stops : Glyph → Prop} {code : List Glyph}
    {parts : List ((Nat × Nat) × List Glyph)} (located : ∀ part ∈ parts, IsLocated stops code part)
    (fields : List (String × String)) :
    parts.foldlM (fun fields part => addMemberFrom? code [] fields part.1.1 part.1.2) fields =
      some ((parts.map (·.2)).foldl (fun fields part => addMember [] part fields) fields) := by
  induction parts generalizing fields with
  | nil => rfl
  | cons part parts ih =>
    obtain ⟨⟨front, back, whole, offsets, -⟩, later⟩ := List.forall_mem_cons.mp located
    -- The first part lies between its own offsets, where a member is added without fail.
    have added := addMemberFrom?_eq front part.2 back [] fields
    rw [← whole] at added
    rw [List.foldlM_cons, offsets, added, List.map_cons, List.foldl_cons]
    exact ih later _

/-- The fields of the parameters that a search has found are read without fail. -/
theorem parameterFieldsFrom?_eq {front behind : List Glyph} {offsets : Option (Nat × Nat)}
    (finds : FindsParameters front behind offsets) (name table : List Char) :
    parameterFieldsFrom? (front ++ behind) offsets =
      some (EntityClass.parameterFields ⟨name, table, behind⟩) := by
  cases finds with
  | missing missing => simp [parameterFieldsFrom?, EntityClass.parameterFields, missing]
  | @found before inside after closing one found =>
    -- The parts between commas are the same, whether they are cut out by offsets or as code.
    obtain ⟨parts, divided, same, located⟩ :=
      exists_parts ',' true (fun _ => True) (by decide) (by decide) (by decide)
        (fun _ _ => trivial) (front ++ before) inside (closing :: after) (fun _ _ => trivial)
    have place : front ++ (before ++ inside ++ closing :: after) =
        front ++ before ++ inside ++ closing :: after := by simp
    rw [place, parameterFieldsFrom?, divided, Option.bind_some, foldlM_addMemberFrom? located, same,
      EntityClass.parameterFields]
    simp only [found]

/-- What stands behind the parameters that a search has found stands at the offset behind them. -/
theorem FindsParameters.exists_tail {front behind : List Glyph} {offsets : Option (Nat × Nat)}
    (finds : FindsParameters front behind offsets) (name table : List Char) :
    ∃ head, front ++ behind = head ++ EntityClass.tail ⟨name, table, behind⟩ ∧
      tailOffset (width front) offsets = width head := by
  cases finds with
  -- Without parameters the body is looked for from the name of the class on.
  | missing missing => exact ⟨front, by simp [EntityClass.tail, missing], rfl⟩
  | @found before inside after closing one found =>
    refine ⟨front ++ before ++ inside ++ [closing], ?_, ?_⟩
    · simp only [EntityClass.tail, found]
      simp
    · simp [tailOffset, one, Nat.add_assoc]

/-- The members of the body that a search has found are added without fail. -/
theorem bodyFieldsFrom?_eq {front behind : List Glyph} {offsets : Option (Nat × Nat)}
    (finds : FindsBody front behind offsets) (fields : List (String × String)) :
    bodyFieldsFrom? (front ++ behind) fields offsets =
      some (match classBody? behind with
        | some body => addMembers [] fields (Segment.collect (fun _ => false) 1 0 [] body)
        | none => fields) := by
  cases finds with
  | missing missing =>
    rw [missing]
    rfl
  | @found before inside after opening closing opens encloses found =>
    have place : front ++ (before ++ opening :: (inside ++ closing :: after)) =
        front ++ before ++ [opening] ++ (inside ++ closing :: after) := by simp
    -- The walk ends with spans of no code, which add no fields.
    obtain ⟨spans, segments, ending, walked, collected, empty, located⟩ :=
      Segment.walk?_body (fun _ => false) place 1 (Segment.isEnclosed_of_encloses encloses opens)
        (width (front ++ (before ++ opening :: (inside ++ closing :: after))) + 1)
        (by simp; omega)
    have same : addMembers [] fields segments =
        addMembers [] fields (Segment.collect (fun _ => false) 1 0 [] inside) := by
      rw [← addMembers_append_empty empty, ← collected]
    simp only [bodyFieldsFrom?, walked, found, Option.bind_some, addMembersFrom?_eq located, same]

/-- The mapping of a source text is found without fail. -/
theorem mappingFrom?_eq (text : List Char) : mappingFrom? text = some (mappingOfText? text) := by
  rw [mappingFrom?, mappingOfText?, mapping?_eq]
  generalize Glyph.ofCode (SourceLine.codeText (SourceLine.ofText text)) = code
  rcases classFrom?_eq code with ⟨none, missing⟩ | ⟨found, front, here, rfl, read⟩
  · rw [none, missing]
    rfl
  -- The parameters are looked for first, and the body behind them.
  · obtain ⟨offsets, searched, finds⟩ := parametersFrom?_width front found.behind
      (width (front ++ found.behind) + 1) (by rw [width_append]; omega)
    have declared := parameterFieldsFrom?_eq finds found.name found.table
    obtain ⟨head, whole, behind⟩ := finds.exists_tail found.name found.table
    obtain ⟨body, looked, findsBody⟩ := classBodyFrom?_width head found.tail
    have fields := bodyFieldsFrom?_eq findsBody found.parameterFields
    rw [← whole] at looked fields
    rw [here, read]
    simp only [Option.bind_eq_bind, Option.bind_some, searched, declared, behind, looked, fields]
    rfl

end Entity

end IndexAudit
