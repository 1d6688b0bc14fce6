import IndexAudit.Proofs.Entity.ClassEnd
import IndexAudit.Proofs.Entity.Reading

/-!
Fields with an explicit column.

The column holds from where the field is declared to where a later member is read as the same field.
A member of a body that has a block is not read at all, so there the column is lost.
-/

namespace IndexAudit

namespace Entity

/-! Fields and where they are declared. -/

/-- A field with the column that its annotations name. -/
structure ExplicitField where
  name : List Char
  column : List Char
  /-- Its annotations, each with the white space behind it. -/
  notes : List (FieldNote × List Char)
  /-- What declares it behind the annotations, with or without a value. -/
  declaration : List Glyph

namespace ExplicitField

/-- The annotations of a field and its declaration, as code. -/
def code (self : ExplicitField) : List Glyph :=
  (self.notes.flatMap fun note => note.1.use.glyphs ++ note.2.map Glyph.plain) ++ self.declaration

/-- A field that is declared with annotations, the first of which for a column names its own. -/
structure IsFine (angled : Bool) (field : ExplicitField) : Prop where
  named : IsName field.name
  notes : ∀ note ∈ field.notes, note.1.IsFine angled ∧ IsGap note.2
  explicit : field.notes.findSome? (·.1.column?) = some field.column
  declares : DeclaresField field.name (Glyph.shownText field.declaration)
  /-- All annotations are in front. -/
  unmarked : ∀ glyph ∈ field.declaration.head?, glyph.shown ≠ '@'

/-- The column of a field with given code behind it: the explicit one, if it is not read again. -/
def columnBefore (self : ExplicitField) (parameters : List (List Glyph))
    (body : Option (List Glyph)) : String :=
  ((declaredFields parameters body).lookup (String.ofList self.name)).getD
    (String.ofList self.column)

end ExplicitField

namespace EntityClass

/-- The parameters of the constructor of a class. -/
def parameters (self : EntityClass) : List (List Glyph) :=
  match constructorParameters? self.behind with
  | some (inside, _) => Glyph.splitTop ',' true inside
  | none => []

/-- The constructor of a class takes a field, in front of later parameters. -/
structure Takes (found : EntityClass) (field : ExplicitField) (later : List (List Glyph)) :
    Prop where
  fine : field.IsFine true
  among : ∃ before gap, (∀ glyph ∈ gap, isSpacing glyph.shown = true) ∧
    (constructorParameters? found.behind).map (·.1) =
      some ([Glyph.plain ','].intercalate (before ++ (gap ++ field.code) :: later)) ∧
    ∀ part ∈ before ++ (gap ++ field.code) :: later, Glyph.Balanced true false part

/-- The body of a class declares a field, between members in front of it and code behind. -/
structure Holds (found : EntityClass) (field : ExplicitField) (front back : List Glyph) :
    Prop where
  fine : field.IsFine false
  body : classBody? found.tail = some (front ++ (field.code ++ back))
  ended : EndsMembers front
  within : Segment.goesOn 0 field.declaration = true
  level : Segment.depthBehind 0 field.declaration = 0

end EntityClass

/-- The column that a text maps a field to, if it declares an entity and maps the field. -/
def columnOfText? (text field : List Char) : Option String :=
  (mappingOfText? text).bind (·.column? (String.ofList field))

/-! The annotations of a field. -/

namespace ExplicitField

variable {angled : Bool} {self : ExplicitField}

/-- What is known of the name and the annotations of a field holds of it without a type, too. -/
theorem isFine_declared (fine : self.IsFine angled) :
    DeclaredField.IsFine angled ⟨self.name, [], self.notes⟩ :=
  ⟨fine.named, fine.notes⟩

/-- The annotations of a field give it the column that they name. -/
theorem column?_eq (fine : self.IsFine angled) :
    column? self.name (self.notes.map (·.1.use.short)) = some (String.ofList self.column) := by
  -- The annotation that gives the column is found among those of the field.
  have explicit : (self.notes.map (·.1)).findSome? (·.column?) = some self.column := by
    rw [List.findSome?_map]
    exact fine.explicit
  rw [Entity.column?_eq (isFine_declared fine), DeclaredField.column?]
  simp only [explicit, Option.some_or]

/-- The declaration of a field has no annotations, and is no arguments of one. -/
theorem leading_declaration (fine : self.IsFine angled) :
    AnnotationUse.leading self.declaration = ([], self.declaration) ∧
      AnnotationUse.Begins self.declaration ∧ Segment.isBlankCode self.declaration = false := by
  have visible := fine.declares.visible
  have unmarked := fine.unmarked
  cases start : self.declaration with
  | nil => simp [start, Glyph.shownText] at visible
  | cons glyph rest =>
    simp only [start, Glyph.shownText, List.map_cons, List.head?_cons, Option.any_some,
      Bool.and_eq_true, Bool.not_eq_true', bne_iff_ne] at visible
    obtain ⟨filled, noArguments⟩ := visible
    -- White space is blank, and the first character is not.
    have unspaced : isSpacing glyph.shown = false := by
      by_contra spaced
      exact absurd (isBlank_of_isSpacing (by simpa using spaced)) (by simp [filled])
    refine ⟨AnnotationUse.leading_plain unspaced (unmarked glyph (by simp [start])) rest, ?_, ?_⟩
    · intro first isFirst
      rw [AnnotationUse.skipSpacing, List.dropWhile_cons_of_neg (by simp [unspaced])] at isFirst
      rw [← Option.some.inj isFirst]
      exact noArguments
    · simp [Segment.isBlankCode, filled]

/-- A field is read with its column. -/
theorem addMember_eq (fine : self.IsFine angled) (entries : List (String × String)) :
    addMember (self.notes.map (·.1.use.short)) self.declaration entries =
      putEntry (String.ofList self.name) (String.ofList self.column) entries := by
  -- The annotations are read off the front, and the name and the column are then known.
  simp only [addMember, (leading_declaration fine).1, List.append_nil,
    fine.declares.fieldName?_trim fine.named, column?_eq fine]

/-- A field is read as a parameter with its column. -/
theorem addMember_code (fine : self.IsFine angled) {gap : List Glyph}
    (spaced : ∀ glyph ∈ gap, isSpacing glyph.shown = true) (entries : List (String × String)) :
    addMember [] (gap ++ self.code) entries =
      putEntry (String.ofList self.name) (String.ofList self.column) entries := by
  -- White space in front of annotations is passed over with them.
  have leads := (AnnotationUse.leads_spacing spaced).append
    (DeclaredField.leads_notesCode (isFine_declared fine))
  have waits : Waits (self.notes.map (·.1.use.short)) []
      (gap ++ DeclaredField.notesCode ⟨self.name, [], self.notes⟩).reverse :=
    ⟨_, rfl, by simpa using leads⟩
  have read := waits.addMember_eq (leading_declaration fine).2.1 entries
  rw [List.reverse_reverse, List.append_assoc] at read
  exact read.trans (addMember_eq fine entries)

/-- The column holds unless the name of the field is seen again outside blocks. -/
theorem columnBefore_eq {parameters : List (List Glyph)} {body : Option (List Glyph)}
    (unseen : ∀ code ∈ parameters ++ body.toList.flatMap blocklessMembers,
      ¬ self.name <:+: Glyph.shownText code) :
    self.columnBefore parameters body = String.ofList self.column := by
  cases read : (declaredFields parameters body).lookup (String.ofList self.name) with
  | none => rw [columnBefore, read, Option.getD_none]
  | some column =>
    -- A field is only read from code in which its name is seen.
    obtain ⟨code, member, isInfix⟩ := isInfix_of_lookup_declaredFields read
    rw [String.toList_ofList] at isInfix
    exact absurd isInfix (unseen code member)

end ExplicitField

/-! Where the column holds. -/

namespace EntityClass

variable {found : EntityClass} {field : ExplicitField}

/-- The mapping of a class is that of its parameters and its body. -/
theorem mapping_eq (found : EntityClass) (body : Option (List Glyph)) :
    found.mapping body = .ofDeclared (String.ofList found.name) (String.ofList found.table)
      (declaredFields found.parameters body) := by
  have fields : found.parameterFields =
      found.parameters.foldl (fun fields part => addMember [] part fields) [] := by
    simp only [parameterFields, parameters]
    cases constructorParameters? found.behind <;> rfl
  -- The parameters give their fields first, and a body adds its own if there is one.
  cases body <;> simp [mapping, declaredFields, fields, membersOf]

/-- The mapping of a text is that of its class. -/
theorem mappingOfText?_eq {text : List Char} (isClass : class? (codeGlyphs text) = some found) :
    mappingOfText? text = some (found.mapping (classBody? found.tail)) := by
  rw [mappingOfText?, ← codeGlyphs, mapping?_eq, isClass]
  rfl

/-- A field that a class declares has the column that it is declared with. -/
theorem columnOfText?_eq {text name : List Char} (isClass : class? (codeGlyphs text) = some found)
    {column : String}
    (declared : (declaredFields found.parameters (classBody? found.tail)).lookup
      (String.ofList name) = some column) : columnOfText? text name = some column := by
  -- The mapping of the text is that of its class, in which the field is looked up.
  rw [columnOfText?, mappingOfText?_eq isClass, Option.bind_some, mapping_eq,
    TableMapping.column?_ofDeclared, declared, Option.some_or]

/-- A parameter has its column in front of those behind it. -/
theorem Takes.lookup_eq {later : List (List Glyph)} (takes : found.Takes field later)
    (body : Option (List Glyph)) :
    (declaredFields found.parameters body).lookup (String.ofList field.name) =
      some (field.columnBefore later body) := by
  obtain ⟨before, gap, spaced, parameters, balanced⟩ := takes.among
  obtain ⟨⟨inside, after⟩, parameters, rfl⟩ := Option.map_eq_some_iff.mp parameters
  have parts : found.parameters = (before ++ [gap ++ field.code]) ++ later := by
    rw [EntityClass.parameters, parameters]
    simpa using Glyph.splitTop_intercalate (by simp) balanced
  -- Whatever the earlier parameters are, the last one of a name counts.
  have own : (declaredFields (before ++ [gap ++ field.code]) none).lookup
      (String.ofList field.name) = some (String.ofList field.column) := by
    simp only [declaredFields, List.foldl_append, List.foldl_cons, List.foldl_nil]
    rw [ExplicitField.addMember_code takes.fine spaced, lookup_putEntry, if_pos rfl]
  rw [parts, lookup_declaredFields, own, ExplicitField.columnBefore]
  cases (declaredFields later body).lookup (String.ofList field.name) <;> rfl

/-- Up to the declaration of a field only its own annotations wait. -/
theorem Holds.waits {front back : List Glyph} (holds : found.Holds field front back) :
    ∃ pending current, Waits (field.notes.map (·.1.use.short)) pending current ∧
      ∀ entries rest, membersOf [] entries [] (front ++ (field.code ++ rest)) =
        membersOf pending (membersOf [] entries [] front) current (field.declaration ++ rest) := by
  obtain ⟨left, blank, first⟩ := holds.ended.membersOf_append
  -- The front leaves white space only, so no annotation of its own waits.
  have nobody : Waits [] [] left.reverse :=
    ⟨[], rfl, by simpa using AnnotationUse.leads_spacing blank⟩
  obtain ⟨pending, current, waits, notes⟩ := nobody.notes holds.fine.notes
  refine ⟨pending, current, by simpa using waits, fun entries rest => ?_⟩
  rw [first, ExplicitField.code, List.append_assoc, notes]

/-- The declaration of a field in a body is one that a member may end behind. -/
theorem Holds.isDeclaration {front back : List Glyph} (holds : found.Holds field front back) :
    IsDeclaration field.declaration :=
  -- What is known of the field is read off its conditions.
  have ⟨alone, begins, visible⟩ := ExplicitField.leading_declaration holds.fine
  ⟨alone, begins, visible, holds.within, holds.level⟩

/-- A member has its column in front of the code behind it. -/
theorem Holds.lookup_eq {front back : List Glyph} (holds : found.Holds field front back)
    (stops : ∀ glyph ∈ back.head?, Segment.Stops glyph) :
    (declaredFields found.parameters (classBody? found.tail)).lookup (String.ofList field.name) =
      some (field.columnBefore [] (some back)) := by
  obtain ⟨pending, current, waits, read⟩ := holds.waits
  have added := ExplicitField.addMember_eq holds.fine
  simp only [holds.body, declaredFields, read, ExplicitField.columnBefore, List.foldl_nil]
  cases back with
  | nil =>
    -- The field is the last member of the body.
    have nothing : membersOf [] [] [] [] = [] := by
      simp [membersOf, Segment.collect, addMembers, Segment.isBlankCode]
    rw [List.append_nil, waits.last holds.isDeclaration, added, lookup_putEntry, if_pos rfl,
      nothing]
    rfl
  | cons stop rest =>
    -- No annotation waits behind the member, so the code behind it is read like a body.
    have stops := stops stop rfl
    have closed : AnnotationUse.leading ([] : List Glyph).reverse = ([], []) :=
      AnnotationUse.leads_nil.alone
    rw [waits.stop holds.isDeclaration stops, added, membersOf_closed stops closed, List.append_nil,
      lookup_membersOf, lookup_putEntry, if_pos rfl]
    cases (membersOf [] [] [] rest).lookup (String.ofList field.name) <;> rfl

/-- A member with a block is not read: its class is mapped as if it were not there. -/
theorem Holds.mapping_block {front back : List Glyph} (holds : found.Holds field front back)
    (opens : ∃ glyph ∈ back.head?, glyph.shown = '\x7b') :
    found.mapping (classBody? found.tail) =
      found.mapping (some (front ++ Glyph.plain '\n' :: Segment.afterBlock back)) := by
  obtain ⟨pending, current, waits, read⟩ := holds.waits
  obtain ⟨left, blank, first⟩ := holds.ended.membersOf_append
  obtain ⟨glyph, isFirst, block⟩ := opens
  obtain ⟨rest, rfl⟩ : ∃ rest, back = glyph :: rest := by
    cases back with
    | nil => cases isFirst
    | cons other rest => exact ⟨rest, by rw [Option.some.inj isFirst]⟩
  -- In front of the member there is only white space since the last one ended.
  have closed : AnnotationUse.leading left.reverse.reverse = ([], []) := by
    rw [List.reverse_reverse]
    exact (AnnotationUse.leads_spacing blank).alone
  have lineBreak : Segment.Stops (Glyph.plain '\n') := .inr rfl
  simp only [mapping_eq, holds.body, declaredFields, read, first,
    membersOf_block holds.isDeclaration block, membersOf_closed lineBreak closed, List.append_nil]

end EntityClass

/--
An explicit column holds from where its field is declared to where the field is read again.

A parameter has it in front of the later parameters and the body, whatever its value, and so has a
member in front of the code behind it, if a semicolon, a line break or the end of the body ends the
member. Nothing is read again where the name of the field is not seen outside blocks. A member in
front of a block is passed over with its annotations: the class is mapped as if a line break stood
in place of the member and the block.
-/
theorem mappingOfText?_explicit {text : List Char} {found : EntityClass}
    (isClass : class? (codeGlyphs text) = some found) (field : ExplicitField) :
    (∀ later, found.Takes field later →
      columnOfText? text field.name = some (field.columnBefore later (classBody? found.tail))) ∧
    (∀ front back, found.Holds field front back →
      ((∀ glyph ∈ back.head?, Segment.Stops glyph) →
        columnOfText? text field.name = some (field.columnBefore [] (some back))) ∧
      ((∃ glyph ∈ back.head?, glyph.shown = '\x7b') →
        mappingOfText? text = some (found.mapping
          (some (front ++ Glyph.plain '\n' :: Segment.afterBlock back))))) ∧
    ∀ parameters body, (∀ code ∈ parameters ++ body.toList.flatMap blocklessMembers,
        ¬ field.name <:+: Glyph.shownText code) →
      field.columnBefore parameters body = String.ofList field.column := by
  -- A parameter, a member that ends, a member with a block, and no later member of the name.
  refine ⟨fun later takes => ?_, fun front back holds => ⟨fun stops => ?_, fun opens => ?_⟩,
    fun parameters body => ExplicitField.columnBefore_eq⟩
  · exact EntityClass.columnOfText?_eq isClass (takes.lookup_eq _)
  · exact EntityClass.columnOfText?_eq isClass (holds.lookup_eq stops)
  · rw [EntityClass.mappingOfText?_eq isClass, holds.mapping_block opens]

/-! An entity with such fields. -/

/-- A property with one annotation, which names its column. -/
def annotatedField (name column gap declaration : String) : ExplicitField :=
  ⟨name.toList, column.toList, [(.column column.toList, gap.toList)],
    Glyph.ofCode declaration.toList⟩

/-- A property may be declared, whatever stands behind its name. -/
theorem annotatedField_isFine {angled : Bool} {name column gap declaration : String}
    (named : IsName name.toList) (isColumn : IsColumnName column.toList) (isGap : IsGap gap.toList)
    {rest : List Char} (shown : Glyph.shownText (Glyph.ofCode declaration.toList) =
      "val".toList ++ ([' '] ++ (name.toList ++ rest)))
    (stop : ∀ c ∈ rest.head?, isWordChar c = false) :
    (annotatedField name column gap declaration).IsFine angled where
  named := named
  notes := List.forall_mem_cons.mpr ⟨⟨isColumn, isGap⟩, by simp⟩
  explicit := rfl
  declares := by
    rw [annotatedField, shown]
    exact .property (by decide) isGap_space stop
  unmarked := by
    intro glyph first
    have first : glyph ∈ (Glyph.ofCode declaration.toList).head? := first
    -- What is shown first is the `v` of the keyword, no sign of an annotation.
    have start : (Glyph.shownText (Glyph.ofCode declaration.toList)).head? = some glyph.shown := by
      rw [Glyph.shownText, List.head?_map, Option.mem_def.mp first]
      rfl
    rw [shown] at start
    rw [← Option.some.inj start]
    decide

/-- A parameter with a block in its value. -/
def nickField : ExplicitField :=
  annotatedField "nick" "nick_nm" " " "val nick: String = run \x7b \"x\" \x7d"

/-- The parameter behind it. -/
def ageCode : List Glyph :=
  " val age: Int".toList.map Glyph.plain

/-- A member whose name is seen again where the value of the next one goes on. -/
def lastField : ExplicitField :=
  annotatedField "last" "last_nm" "\n  " "val last = \"\""

/-- A member with a block in its value. -/
def tagsField : ExplicitField :=
  annotatedField "tags" "tag_list" "\n  " "val tags = load "

/-- The line break and the indentation in front of a member. -/
def indentation : List Glyph :=
  "\n  ".toList.map Glyph.plain

/-- The member between the other ones, the value of which goes on behind a line break. -/
def labelCode : List Glyph :=
  Glyph.ofCode "\n  val label = \"x\" +\n    first + last\n  ".toList

/-- The code of the body in front of the member with a block. -/
def tagsFront : List Glyph :=
  indentation ++ (lastField.code ++ labelCode)

/-- The block of that member, and the end of the body. -/
def tagsBack : List Glyph :=
  "\x7b it \x7d\n".toList.map Glyph.plain

/-- An entity with these fields in its constructor and in its body. -/
def personText : List Char :=
  ['\n'].intercalate (["@Entity @Table(name = \"people\")",
    "class Person(@Column(name = \"nick_nm\") val nick: String = run \x7b \"x\" \x7d, " ++
      "val age: Int) \x7b",
    "  @Column(name = \"last_nm\")", "  val last = \"\"", "  val label = \"x\" +",
    "    first + last", "  @Column(name = \"tag_list\")", "  val tags = load \x7b it \x7d",
    "\x7d"].map String.toList)

/-- The class of that entity. -/
def personClass : EntityClass where
  name := "Person".toList
  table := "people".toList
  behind := Glyph.plain '(' :: ([Glyph.plain ','].intercalate [nickField.code, ageCode] ++
    (") \x7b".toList.map Glyph.plain ++
      (tagsFront ++ (tagsField.code ++ (tagsBack ++ [Glyph.plain '\x7d'])))))

/-- The parameter keeps its column, and of the members one is overwritten and the other one lost. -/
theorem mappingOfText?_explicit_person :
    (personClass.Takes nickField [ageCode] ∧
      columnOfText? personText "nick".toList = some "nick_nm") ∧
    (personClass.Holds lastField indentation (labelCode ++ (tagsField.code ++ tagsBack)) ∧
      columnOfText? personText "last".toList = some "last") ∧
    (personClass.Holds tagsField tagsFront tagsBack ∧
      columnOfText? personText "tags".toList = none) := by
  -- The entity is read once for all three fields.
  obtain ⟨isClass, parameters, body⟩ : class? (codeGlyphs personText) = some personClass ∧
      (constructorParameters? personClass.behind).map (·.1) =
        some ([Glyph.plain ','].intercalate [nickField.code, ageCode]) ∧
      classBody? personClass.tail = some (tagsFront ++ (tagsField.code ++ tagsBack)) := by
    decide +kernel
  have indent : IsGap "\n  ".toList := ⟨by decide, by decide⟩
  have closes {code : List Glyph} (closes : Glyph.closesAll [] code = true) :
      Glyph.Balanced false true code := (Glyph.balanced_of_closesAll closes).1 rfl
  have takes : personClass.Takes nickField [ageCode] := by
    have fine : nickField.IsFine true := annotatedField_isFine ⟨by decide, by decide⟩
      ⟨by decide, by decide, by decide⟩ isGap_space
      (show _ = _ ++ (_ ++ (_ ++ ": String = run \x7b \" \" \x7d".toList)) by decide +kernel)
      (by decide)
    refine ⟨fine, [], [], by simp, parameters, ?_⟩
    refine List.forall_mem_cons.mpr ⟨?_, List.forall_mem_cons.mpr ⟨?_, by simp⟩⟩
    · exact (closes (by decide +kernel)).withAngles (by decide +kernel)
    · exact (closes (by decide +kernel)).withAngles (by decide +kernel)
  have holdsLast : personClass.Holds lastField indentation
      (labelCode ++ (tagsField.code ++ tagsBack)) := by
    have fine : lastField.IsFine false := annotatedField_isFine ⟨by decide, by decide⟩
      ⟨by decide, by decide, by decide⟩ indent
      (show _ = _ ++ (_ ++ (_ ++ " = \"\"".toList)) by decide +kernel) (by decide)
    have ended : EndsMembers indentation := ⟨(closes (by decide)).closesBrackets,
      [⟨[], 1, false⟩], "  ".toList.map Glyph.plain, 2, by decide +kernel, by decide, rfl⟩
    exact ⟨fine, by simpa [tagsFront] using body, ended, by decide +kernel, by decide +kernel⟩
  have holdsTags : personClass.Holds tagsField tagsFront tagsBack := by
    have fine : tagsField.IsFine false := annotatedField_isFine ⟨by decide, by decide⟩
      ⟨by decide, by decide, by decide⟩ indent
      (show _ = _ ++ (_ ++ (_ ++ " = load ".toList)) by decide +kernel) (by decide)
    have ended : EndsMembers tagsFront := ⟨(closes (by decide +kernel)).closesBrackets,
      (Segment.collect (fun _ => false) 1 0 [] tagsFront).dropLast, "  ".toList.map Glyph.plain, 6,
      by decide +kernel, by decide, by decide +kernel⟩
    exact ⟨fine, body, ended, by decide +kernel, by decide +kernel⟩
  obtain ⟨nick, -, unseen⟩ := mappingOfText?_explicit isClass nickField
  obtain ⟨-, last, -⟩ := mappingOfText?_explicit isClass lastField
  obtain ⟨-, tags, -⟩ := mappingOfText?_explicit isClass tagsField
  refine ⟨⟨takes, ?_⟩, ⟨holdsLast, ?_⟩, ⟨holdsTags, ?_⟩⟩
  · rw [body] at nick
    exact (nick _ takes).trans (congrArg some (unseen _ _ (by decide +kernel)))
  · exact ((last _ _ holdsLast).1 (by decide +kernel)).trans (by decide +kernel)
  · rw [columnOfText?, (tags _ _ holdsTags).2 (by decide +kernel)]
    decide +kernel

end Entity

end IndexAudit
