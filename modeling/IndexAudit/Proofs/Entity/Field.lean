import IndexAudit.Proofs.Entity.Declaration
import Mathlib.Data.List.Basic

/-!
The fields of an entity are read as they are declared.

A field is known by its name, and its column by its annotations. Either way of writing it ends in
a declaration that nothing but its name is read of.
-/

namespace IndexAudit

namespace Entity

variable {angled : Bool}

/-! Columns. -/

/-- An annotation that may be written is. -/
theorem FieldNote.IsFine.isWritten {note : FieldNote} (fine : note.IsFine angled) :
    note.use.IsWritten angled := by
  -- Two kinds have a string for their argument, and the third is written by assumption.
  cases note with
  | column name => exact AnnotationUse.isWritten_nameArgument (by decide) (by decide) name
  | joinColumn name => exact AnnotationUse.isWritten_nameArgument (by decide) (by decide) name
  | other note => exact fine.1

/-- There is nothing to clean off a column name. -/
theorem IsColumnName.clean {name : List Char} (isName : IsColumnName name) :
    cleanNameChars name = name := by
  -- It begins and ends with neither white space nor a quote.
  have trimmed : trim name = name :=
    trim_eq (fun c first => (isName.starts c first).1) (fun c last => (isName.ends c last).1)
  have start : name.dropWhile isNameQuote = name :=
    dropWhile_eq fun c first => (isName.starts c first).2
  rw [cleanNameChars, trimmed, start, dropEndWhile_eq fun c last => (isName.ends c last).2]

/-- The column of a kind of annotation is the one that the first of these names. -/
theorem explicitColumn?_eq {kind : String} {name? : FieldNote → Option (List Char)}
    {notes : List FieldNote} (clean : ∀ note ∈ notes, ∀ name ∈ name? note, IsColumnName name)
    (named : ∀ note ∈ notes, (if note.use.short.name = kind.toList then
      note.use.short.stringArgument "name".toList else none) = name? note) :
    explicitColumn? kind (notes.map (·.use.short)) = notes.findSome? name? := by
  -- Both search the notes in order for the first one that names a column.
  have same : (notes.map (·.use.short)).findSome? (fun note =>
      if note.name = kind.toList then note.stringArgument "name".toList else none) =
      notes.findSome? name? := by
    rw [List.findSome?_map, ← List.head?_filterMap, ← List.head?_filterMap]
    exact congrArg List.head? (List.filterMap_congr named)
  rw [explicitColumn?, same]
  cases found : notes.findSome? name? with
  | none => rfl
  | some name =>
    obtain ⟨note, member, isName⟩ := List.exists_of_findSome?_eq_some found
    have isName := clean note member name isName
    simp [isName.clean, isName.filled]

/-- The column that annotations give a field is the one that is meant. -/
theorem column?_eq {field : DeclaredField} (fine : field.IsFine angled) :
    column? field.name (field.notes.map (·.1.use.short)) = field.column? := by
  have notes (note : FieldNote) (member : note ∈ field.notes.map (·.1)) : note.IsFine angled := by
    obtain ⟨spaced, isNote, rfl⟩ := List.mem_map.mp member
    exact (fine.notes spaced isNote).1
  -- The two kinds are told apart by their names, and neither is the name of another annotation.
  have columns : explicitColumn? "Column" ((field.notes.map (·.1)).map (·.use.short)) =
      (field.notes.map (·.1)).findSome? (·.column?) := by
    refine explicitColumn?_eq (fun note member name given => ?_) (fun note member => ?_)
    · cases note <;> cases given
      exact notes _ member
    · cases note with
      | column name => exact AnnotationUse.stringArgument_nameArgument _ name
      | joinColumn name => rfl
      | other note => exact if_neg (notes _ member).2.1
  have joins : explicitColumn? "JoinColumn" ((field.notes.map (·.1)).map (·.use.short)) =
      (field.notes.map (·.1)).findSome? (·.joinColumn?) := by
    refine explicitColumn?_eq (fun note member name given => ?_) (fun note member => ?_)
    · cases note <;> cases given
      exact notes _ member
    · cases note with
      | column name => rfl
      | joinColumn name => exact AnnotationUse.stringArgument_nameArgument _ name
      | other note => exact if_neg (notes _ member).2.2
  have excluded (note : FieldNote) :
      unmappedAnnotations.contains (String.ofList note.use.short.name) = note.excludes := by
    cases note with
    | column name => exact show unmappedAnnotations.contains "Column" = false by decide
    | joinColumn name => exact show unmappedAnnotations.contains "JoinColumn" = false by decide
    | other note => rfl
  have shape : field.notes.map (·.1.use.short) = (field.notes.map (·.1)).map (·.use.short) := by
    simp
  rw [column?, shape, columns, joins, List.any_map]
  simp only [Function.comp_def, excluded]
  rfl

/-! Declarations. -/

namespace DeclaredField

/-- The annotations of a field, as code. -/
def notesCode (field : DeclaredField) : List Glyph :=
  field.notes.flatMap fun note => note.1.use.glyphs ++ note.2.map Glyph.plain

/-- What comes behind the annotations of a parameter, as code. -/
def propertyCode (field : DeclaredField) : List Glyph :=
  "val ".toList.map Glyph.plain ++
    (field.name.map Glyph.plain ++ (": ".toList.map Glyph.plain ++ Glyph.ofCode field.type))

/-- What comes behind the annotations of a member, as code. -/
def typedCode (field : DeclaredField) : List Glyph :=
  "private ".toList.map Glyph.plain ++
    (Glyph.ofCode field.type ++ (' ' :: field.name).map Glyph.plain)

variable {field : DeclaredField}

/-- A parameter is known by its name. -/
theorem fieldName?_propertyCode (named : IsName field.name) :
    fieldName? (trim (Glyph.shownText field.propertyCode)) = some field.name := by
  -- The colon stops the name, and what stands behind it does not matter.
  have shown : Glyph.shownText field.propertyCode =
      "val".toList ++ ([' '] ++ (field.name ++ ':' :: ' ' :: seen field.type)) := by
    unfold propertyCode
    simp [Glyph.shown_plain, seen]
  have stop : ∀ c ∈ (':' :: ' ' :: seen field.type).head?, isWordChar c = false := by
    simp [isWordChar]
  have declares : DeclaresField field.name
      ("val".toList ++ ([' '] ++ (field.name ++ ':' :: ' ' :: seen field.type))) :=
    .property (by decide) isGap_space stop
  rw [shown]
  exact declares.fieldName?_trim named

/-- A member is known by its name. -/
theorem fieldName?_typedCode (named : IsName field.name) (isType : IsMemberType field.type) :
    fieldName? (trim (Glyph.shownText field.typedCode)) = some field.name := by
  have shown : Glyph.shownText field.typedCode =
      "private".toList ++ ([' '] ++ (seen field.type ++ ([' '] ++ (field.name ++ [])))) := by
    unfold typedCode
    simp [Glyph.shown_plain, seen]
  -- A type of a member has no sign in it that would end it early.
  have type : IsFieldType (seen field.type) := by
    refine ⟨isType.visible, isType.unreserved, fun c member => ?_⟩
    obtain ⟨noParenthesis, -, -, noValue, noColon⟩ := isType.flat c member
    exact ⟨noParenthesis, noValue, noColon⟩
  have declares : DeclaresField field.name
      ("private".toList ++ ([' '] ++ (seen field.type ++ ([' '] ++ (field.name ++ []))))) :=
    .modified (by decide) isGap_space (.typed type isGap_space (by simp))
  rw [shown]
  exact declares.fieldName?_trim named

end DeclaredField

/-! Annotations in front of declarations. -/

/-- White space between annotations is flat. -/
theorem IsGap.flat {gap : List Char} (isGap : IsGap gap) : ∀ c ∈ gap, Glyph.IsFlat c :=
  IsSpace.isFlat isGap.spaced

/-- Names are flat. -/
theorem flat_of_isName {name : List Char} (named : IsName name) : ∀ c ∈ name, Glyph.IsFlat c := by
  intro c member
  -- A character of a word is one that names of annotations have.
  have word := named.parts c member
  exact AnnotationUse.isFlat_of_isNameChar (by simp_all [isWordChar, AnnotationUse.isNameChar])

namespace DeclaredField

variable {field : DeclaredField}

/-- The annotations of a field are code in which brackets match. -/
theorem writes_notesCode (fine : field.IsFine angled) (rest : List Char) :
    Glyph.Writes angled false field.notesCode field.notesText rest := by
  refine Glyph.writes_flatMap (fun note member rest => ?_) rest
  -- Each annotation is written with its gap, whatever stands behind.
  obtain ⟨isNote, isGap⟩ := fine.notes note member
  exact (AnnotationUse.writes_render isNote.isWritten _).append (Glyph.writes_flat _ isGap.flat)

/-- The annotations of a field are read in front of its declaration. -/
theorem leads_notesCode (fine : field.IsFine angled) :
    AnnotationUse.Leads field.notesCode (field.notes.map (·.1.use.short)) := by
  refine AnnotationUse.leads_flatMap fun note member => ?_
  obtain ⟨isNote, isGap⟩ := fine.notes note member
  -- The first character of the white space ends the annotation.
  obtain ⟨c, gap, shape⟩ := List.exists_cons_of_ne_nil isGap.filled
  have spaced : ∀ d ∈ c :: gap, isSpacing d = true := fun d isChar =>
    (isGap.spaced d (shape ▸ isChar)).1
  have first := AnnotationUse.leads_glyphs isNote.isWritten
    (show isSpacing (Glyph.plain c).shown = true from spaced c (by simp))
  have more : AnnotationUse.Leads (gap.map Glyph.plain) [] := by
    refine AnnotationUse.leads_spacing fun glyph isGlyph => ?_
    obtain ⟨d, isChar, rfl⟩ := List.mem_map.mp isGlyph
    exact spaced d (by simp [isChar])
  simpa [shape] using first.append more

/-- A parameter, as code. -/
def parameterCode (field : DeclaredField) : List Glyph :=
  Glyph.plain ' ' :: (field.notesCode ++ field.propertyCode)

/-- A parameter is code in which brackets and angles match. -/
theorem writes_parameterCode (fine : field.IsFine true) (isType : IsType field.type)
    {rest : List Char} (apart : ∀ c ∈ rest.head?, c ≠ '"' ∧ c ≠ '/' ∧ c ≠ '*') :
    Glyph.Writes true false field.parameterCode field.parameter rest :=
  -- The parts are flat, or written by themselves, one behind the other.
  (Glyph.writes_flat [' '] (by decide)).append ((writes_notesCode fine _).append
    ((Glyph.writes_flat "val ".toList (by decide)).append
      ((Glyph.writes_flat field.name (flat_of_isName fine.named)).append
        ((Glyph.writes_flat ": ".toList (by decide)).append (isType.toWrites.before apart)))))

/-- A member, as code. -/
def memberCode (field : DeclaredField) : List Glyph :=
  field.notesCode ++ (field.typedCode ++ ";\n".toList.map Glyph.plain)

/-- A member without its annotations is code in which brackets match. -/
theorem writes_typedCode (named : IsName field.name) (isType : IsMemberType field.type)
    (rest : List Char) : Glyph.Writes false true field.typedCode
      ("private ".toList ++ (field.type ++ ' ' :: field.name)) rest := by
  -- A type may hold angles, which do not nest in a body.
  have type : Glyph.Writes false true (Glyph.ofCode field.type) field.type
      (' ' :: field.name ++ rest) :=
    Glyph.Writes.before ⟨isType.spelled, isType.balanced.withoutAngles⟩ (by simp)
  have name : ∀ c ∈ ' ' :: field.name, Glyph.IsFlat c :=
    List.forall_mem_cons.mpr ⟨by decide, flat_of_isName named⟩
  exact (Glyph.writes_flat "private ".toList (by decide)).withCommas.append
    (type.append (Glyph.writes_flat (' ' :: field.name) name).withCommas)

/-- A member is code in which brackets match. -/
theorem writes_memberCode (fine : field.IsFine false) (isType : IsMemberType field.type)
    (rest : List Char) : Glyph.Writes false true field.memberCode field.member rest := by
  -- The declaration is one part, and what ends its line another.
  have shape : field.member = field.notesText ++ (("private ".toList ++
      (field.type ++ (' ' :: field.name))) ++ ";\n".toList) := by simp [member]
  rw [shape]
  exact (writes_notesCode fine _).withCommas.append
    ((writes_typedCode fine.named isType _).append
      (Glyph.writes_flat ";\n".toList (by decide)).withCommas)

end DeclaredField

/-! Entries. -/

/-- A new key comes behind the others. -/
theorem putEntry_fresh {key : String} {entries : List (String × String)}
    (fresh : ∀ entry ∈ entries, entry.1 ≠ key) (value : String) :
    putEntry key value entries = entries ++ [(key, value)] := by
  induction entries with
  | nil => rfl
  | cons entry entries ih =>
    -- No entry has the key, so the search runs to the end.
    obtain ⟨here, later⟩ := List.forall_mem_cons.mp fresh
    simp [putEntry, here, ih later]

/-- No entry is that of a field of one of these names. -/
def Fresh (entries : List (String × String)) (fields : List DeclaredField) : Prop :=
  ∀ entry ∈ entries, ∀ field ∈ fields, entry.1 ≠ String.ofList field.name

/-- There is no field where there are no entries. -/
theorem fresh_nil {fields : List DeclaredField} : Fresh [] fields := by
  simp [Fresh]

/-- The entry of a field is not that of another one behind it. -/
theorem Fresh.append {entries : List (String × String)} {field : DeclaredField}
    {fields : List DeclaredField} (fresh : Fresh entries (field :: fields))
    (distinct : ((field :: fields).map (·.name)).Nodup) :
    Fresh (entries ++ field.mapped?.toList) fields := by
  intro entry member other isOther
  rcases List.mem_append.mp member with earlier | own
  · exact fresh entry earlier other (by simp [isOther])
  -- The entry that is new has the name of the first field, which no other has.
  · obtain ⟨column, -, rfl⟩ := Option.map_eq_some_iff.mp (Option.mem_toList.mp own)
    rw [List.map_cons, List.nodup_cons] at distinct
    intro same
    exact distinct.1 (List.mem_map.mpr ⟨other, isOther, (String.ofList_injective same).symm⟩)

/-- A field is added with its column, if it has one. -/
theorem addMember_eq {field : DeclaredField} (fine : field.IsFine angled)
    {inherited own : List AnnotationUse} {code declaration : List Glyph}
    (read : AnnotationUse.leading code = (own, declaration))
    (notes : inherited ++ own = field.notes.map (·.1.use.short))
    (named : fieldName? (trim (Glyph.shownText declaration)) = some field.name)
    {entries : List (String × String)} (fresh : Fresh entries [field]) :
    addMember inherited code entries = entries ++ field.mapped?.toList := by
  simp only [addMember, read, named, notes, column?_eq fine, DeclaredField.mapped?]
  cases field.column? with
  | none => simp
  | some column =>
    -- The name is new among the entries, so the field comes behind them.
    have others := fun entry member => fresh entry member field (by simp)
    simpa using putEntry_fresh others column

end Entity

end IndexAudit
