import IndexAudit.Proofs.Code.Waiting
import IndexAudit.Proofs.Entity.Field

/-!
The members of a body are read one by one.

Annotations wait for the member behind them. The lines on which members stand play no part.
-/

namespace IndexAudit

namespace Entity

/-! The lines on which segments stand play no part. -/

/-- The fields of segments are told by the code of these. -/
theorem addMembers_congr {first other : Segment} {rest more : List Segment}
    (code : first.code = other.code) (opensBlock : first.opensBlock = other.opensBlock)
    (later : ∀ pending entries, addMembers pending entries rest = addMembers pending entries more)
    (pending : List AnnotationUse) (entries : List (String × String)) :
    addMembers pending entries (first :: rest) = addMembers pending entries (other :: more) := by
  -- Whether a block opens and what the code is decides; the line it starts on does not.
  simp only [addMembers, code, opensBlock, later]

/-- The fields of a body are the same on whichever line it begins. -/
theorem addMembers_collect (runsOn : List Char → Bool) (start other depth : Nat)
    (current code : List Glyph) (pending : List AnnotationUse) (entries : List (String × String)) :
    addMembers pending entries (Segment.collect runsOn start depth current code) =
      addMembers pending entries (Segment.collect runsOn other depth current code) := by
  -- The recursion is that of the segments, which differ in nothing but their lines.
  match code with
  | [] =>
    rw [Segment.collect, Segment.collect]
    exact addMembers_congr rfl rfl (fun _ _ => rfl) pending entries
  | glyph :: rest =>
    rw [Segment.collect, Segment.collect]
    split
    · have shorter : (Segment.afterBlock (glyph :: rest)).length < rest.length + 1 :=
        Segment.afterBlock_length (List.cons_ne_nil glyph rest)
      exact addMembers_congr rfl rfl (addMembers_collect runsOn _ _ 0 [] _) pending entries
    split
    · exact addMembers_congr rfl rfl (addMembers_collect runsOn _ _ 0 [] rest) pending entries
    · exact addMembers_collect runsOn start other _ _ rest pending entries
termination_by code.length

/-- The mapped fields after the rest of a body, the current segment of which is in reverse order. -/
def membersOf (pending : List AnnotationUse) (entries : List (String × String))
    (current code : List Glyph) : List (String × String) :=
  addMembers pending entries (Segment.collect (fun _ => false) 1 0 current code)

section Members

variable {angled : Bool} {pending own waiting : List AnnotationUse}
  {entries : List (String × String)} {current : List Glyph}

/-- White space holds no annotations. -/
theorem leading_blank {code : List Glyph} (blank : Segment.isBlankCode code = true) :
    (AnnotationUse.leading code).1 = [] := by
  -- White space has no sign in it, so no annotation begins there.
  have nothing : AnnotationUse.read? (AnnotationUse.skipSpacing code) = none := by
    cases start : AnnotationUse.skipSpacing code with
    | nil => rfl
    | cons glyph rest =>
      have within : glyph ∈ code :=
        (List.dropWhile_sublist _).subset (start ▸ List.mem_cons_self ..)
      have white := List.all_eq_true.mp blank glyph within
      have apart : glyph.shown ≠ '@' := by
        intro sign
        rw [sign] at white
        exact absurd white (by decide)
      simp [AnnotationUse.read?, apart]
  rw [AnnotationUse.leading_eq, nothing]

/-- A reader of fields, for whom annotations wait. -/
def reader : MemberReader (List (String × String) → List (String × String)) where
  runsOn _ := false
  closing := []
  ofSegments pending segments entries := addMembers pending entries segments
  visible := by simp
  unclosed := by simp
  handsOn {pending own code} closed line rest := by
    funext entries
    -- A blank segment is passed over, and one of annotations alone hands them on.
    by_cases blank : Segment.isBlankCode code = true
    · have nothing := leading_blank blank
      rw [closed] at nothing
      obtain rfl : own = [] := nothing
      simp [addMembers, blank]
    · simp only [addMembers, closed, blank]
      simp [Segment.isBlankCode]

/-- The reader adds the fields that are mapped after the rest of a body. -/
theorem read_reader (place : MemberPlace) (code : List Glyph) (entries : List (String × String)) :
    reader.read place code entries = membersOf place.pending entries place.current code :=
  addMembers_collect _ _ _ _ _ _ _ _

/-- The current member is read where it ends. -/
theorem membersOf_stop {stop : Glyph} (stops : Segment.Stops stop) (rest : List Glyph) :
    membersOf pending entries current (stop :: rest) = addMembers pending entries
      (⟨current.reverse, 1, false⟩ :: Segment.collect (fun _ => false) 1 0 [] rest) := by
  rw [membersOf, Segment.collect_stop (stops.imp_right fun ends => ⟨ends, by simp⟩)]
  -- The segments behind count their lines from elsewhere, which no field depends on.
  exact addMembers_congr rfl rfl (fun _ _ => addMembers_collect _ _ _ _ _ _ _ _) pending entries

/-- The annotations in front of the end of a member wait for the next one. -/
theorem membersOf_closed {stop : Glyph} (stops : Segment.Stops stop)
    (closed : AnnotationUse.leading current.reverse = (own, [])) (rest : List Glyph) :
    membersOf pending entries current (stop :: rest) =
      membersOf (pending ++ own) entries [] rest := by
  -- The annotations of a segment without a declaration are handed on, by what readers of members
  -- have in common.
  rw [membersOf_stop stops]
  exact congrFun (reader.handsOn closed 1 _) entries

/-- Annotations wait, as pending ones or in front of the current member. -/
def Waits (waiting pending : List AnnotationUse) (current : List Glyph) : Prop :=
  ∃ own, waiting = pending ++ own ∧ AnnotationUse.Leads current.reverse own

/-- The annotations of a field wait one behind the other. -/
theorem Waits.notes {notes : List (FieldNote × List Char)}
    (fine : ∀ note ∈ notes, note.1.IsFine angled ∧ IsGap note.2)
    (waits : Waits waiting pending current) :
    ∃ pending' current', Waits (waiting ++ notes.map (·.1.use.short)) pending' current' ∧
      ∀ entries rest, membersOf pending entries current
        ((notes.flatMap fun note => note.1.use.glyphs ++ note.2.map Glyph.plain) ++ rest) =
        membersOf pending' entries current' rest := by
  let uses := notes.map fun note => (note.1.use, note.2)
  have fine : ∀ use ∈ uses, use.1.IsWritten angled ∧ use.2 ≠ [] ∧
      ∀ c ∈ use.2, isSpacing c = true := by
    intro use member
    obtain ⟨note, isNote, rfl⟩ := List.mem_map.mp member
    obtain ⟨isFine, isGap⟩ := fine note isNote
    exact ⟨isFine.isWritten, isGap.filled, fun c isChar => (isGap.spaced c isChar).1⟩
  -- Where the class is read from is a place like that of the members of a repository.
  let place : MemberPlace := ⟨1, pending, current⟩
  have start : place.Waits waiting _ := ⟨waits, rfl⟩
  obtain ⟨next, behind, -, steps⟩ := start.notes reader fine
  refine ⟨next.pending, next.current, ?_, fun entries rest => ?_⟩
  · simpa [Waits, uses, Function.comp_def] using behind.own
  · have read := congrFun (steps rest) entries
    simpa [read_reader, uses, place, List.flatMap_map] using read

/-- A member is read with all annotations that wait for it. -/
theorem Waits.addMember_eq (waits : Waits waiting pending current) {declaration : List Glyph}
    (begins : AnnotationUse.Begins declaration) (entries : List (String × String)) :
    addMember pending (current.reverse ++ declaration) entries =
      addMember waiting declaration entries := by
  -- Those in front of the declaration are read with it, whichever of them waited before.
  obtain ⟨own, rfl, leads⟩ := waits
  simp only [addMember, leads.reads declaration begins, List.append_assoc]

/-- A declaration that is not blank is read, and nothing waits behind it. -/
theorem Waits.addMembers_eq (waits : Waits waiting pending current) {declaration : List Glyph}
    (begins : AnnotationUse.Begins declaration)
    (alone : AnnotationUse.leading declaration = ([], declaration))
    (visible : Segment.isBlankCode declaration = false) (line : Nat) (rest : List Segment) :
    addMembers pending entries (⟨current.reverse ++ declaration, line, false⟩ :: rest) =
      addMembers [] (addMember waiting declaration entries) rest := by
  rw [← waits.addMember_eq begins]
  obtain ⟨own, rfl, leads⟩ := waits
  have read := leads.reads declaration begins
  rw [alone] at read
  -- The declaration is visible, so the segment is neither blank nor only annotations.
  have filled : Segment.isBlankCode (current.reverse ++ declaration) = false := by
    rw [Segment.isBlankCode, List.all_append, ← Segment.isBlankCode, ← Segment.isBlankCode, visible,
      Bool.and_false]
  simp only [addMembers, filled, read, visible, Bool.false_eq_true, if_false]

/-- A declaration without annotations that a member may end behind. -/
structure IsDeclaration (declaration : List Glyph) : Prop where
  alone : AnnotationUse.leading declaration = ([], declaration)
  begins : AnnotationUse.Begins declaration
  visible : Segment.isBlankCode declaration = false
  within : Segment.goesOn 0 declaration = true
  level : Segment.depthBehind 0 declaration = 0

section Declared

variable {declaration : List Glyph}

/-- A declaration goes to the current member as a whole. -/
theorem membersOf_declaration (isDeclaration : IsDeclaration declaration) (rest : List Glyph) :
    membersOf pending entries current (declaration ++ rest) =
      membersOf pending entries (declaration.reverse ++ current) rest := by
  -- The declaration goes on, and leaves the depth where it was.
  rw [membersOf, Segment.collect_goesOn isDeclaration.within, isDeclaration.level, membersOf]

/-- A declaration is read where its member ends. -/
theorem Waits.stop (waits : Waits waiting pending current)
    (isDeclaration : IsDeclaration declaration) {stop : Glyph} (stops : Segment.Stops stop)
    (rest : List Glyph) :
    membersOf pending entries current (declaration ++ stop :: rest) =
      membersOf [] (addMember waiting declaration entries) [] rest := by
  -- The declaration goes to its segment, and that ends at the stop.
  rw [membersOf_declaration isDeclaration, membersOf_stop stops, List.reverse_append,
    List.reverse_reverse, waits.addMembers_eq isDeclaration.begins isDeclaration.alone
    isDeclaration.visible, membersOf]

/-- A declaration is read at the end of the body. -/
theorem Waits.last (waits : Waits waiting pending current)
    (isDeclaration : IsDeclaration declaration) :
    membersOf pending entries current declaration = addMember waiting declaration entries := by
  have whole := @membersOf_declaration pending entries current declaration isDeclaration []
  rw [List.append_nil] at whole
  -- Without a stop the last segment ends with the code.
  rw [whole, membersOf, Segment.collect, List.reverse_append, List.reverse_reverse,
    waits.addMembers_eq isDeclaration.begins isDeclaration.alone isDeclaration.visible, addMembers]

/-- A declaration with a block behind it is not read, and the annotations in front are lost. -/
theorem membersOf_block (isDeclaration : IsDeclaration declaration) {glyph : Glyph}
    (opens : glyph.shown = '\x7b') (rest : List Glyph) :
    membersOf pending entries current (declaration ++ glyph :: rest) =
      membersOf [] entries [] (Segment.afterBlock (glyph :: rest)) := by
  -- The segment opens a block, so it is skipped, and the walk goes on behind the block.
  rw [membersOf_declaration isDeclaration, membersOf, Segment.collect_block opens, addMembers,
    if_pos rfl, membersOf]
  exact addMembers_collect _ _ _ _ _ _ _ _

end Declared

/-- The declaration of a field is one that a member may end behind. -/
theorem isDeclaration_typedCode {field : DeclaredField} (named : IsName field.name)
    (isType : IsMemberType field.type) : IsDeclaration field.typedCode where
  alone := AnnotationUse.leading_plain (by decide) (by decide) _
  begins glyph first := by
    obtain rfl : Glyph.plain 'p' = glyph := Option.some.inj first
    decide
  visible := rfl
  level := Segment.depthBehind_balanced
    (DeclaredField.writes_typedCode named isType []).balanced 0
  within := by
    refine Segment.goesOn_of_forall (fun glyph member => ?_) 0
    -- No part of it ends a member: neither the modifier, nor the type, nor the name.
    rcases List.mem_append.mp member with isModifier | later
    · have modifier : ∀ glyph ∈ "private ".toList.map Glyph.plain,
          glyph.shown ≠ ';' ∧ glyph.shown ≠ '\n' ∧ glyph.shown ≠ '\x7b' := by decide
      exact modifier glyph isModifier
    rcases List.mem_append.mp later with inType | inName
    · have inSeen : glyph.shown ∈ seen field.type := List.mem_map.mpr ⟨glyph, inType, rfl⟩
      obtain ⟨-, noBlock, noEnd, -, -⟩ := isType.flat glyph.shown inSeen
      exact ⟨noEnd, fun lineBreak =>
        isType.inLine (isType.spelled.mem_of_shown inType lineBreak (by decide)), noBlock⟩
    · obtain ⟨c, isChar, rfl⟩ := List.mem_map.mp inName
      rcases List.mem_cons.mp isChar with rfl | isChar
      · decide
      · have word := named.parts c isChar
        refine ⟨?_, ?_, ?_⟩ <;> rintro rfl <;> exact absurd word (by decide)

/-- A member is added with the annotations that wait for it, and nothing waits behind it. -/
theorem membersOf_typedCode {field : DeclaredField} (fine : field.IsFine angled)
    (isType : IsMemberType field.type) (fresh : Fresh entries [field])
    (waits : Waits (field.notes.map (·.1.use.short)) pending current) (rest : List Glyph) :
    membersOf pending entries current (field.typedCode ++ Glyph.plain ';' :: rest) =
      membersOf [] (entries ++ field.mapped?.toList) [] rest := by
  -- The member is a declaration with a name and a type, so it is read at its end.
  have isDeclaration := isDeclaration_typedCode fine.named isType
  have added := addMember_eq fine isDeclaration.alone (List.append_nil _)
    (DeclaredField.fieldName?_typedCode fine.named isType) fresh
  rw [waits.stop isDeclaration (.inl rfl), added]

/-- The members of a body are added in their order. -/
theorem membersOf_members {fields : List DeclaredField}
    (fine : ∀ field ∈ fields, field.IsFine angled ∧ IsMemberType field.type)
    (distinct : (fields.map (·.name)).Nodup) (fresh : Fresh entries fields) :
    membersOf [] entries [] (fields.flatMap (·.memberCode)) =
      entries ++ fields.filterMap (·.mapped?) := by
  -- The entries grow with each field, and stay apart from the fields that are left.
  induction fields generalizing entries with
  | nil => simp [membersOf, Segment.collect, addMembers, Segment.isBlankCode]
  | cons field fields ih =>
    obtain ⟨⟨isFine, isType⟩, later⟩ := List.forall_mem_cons.mp fine
    have here : Fresh entries [field] := fun entry member other isOther =>
      fresh entry member other (by simp_all)
    have nobody : Waits [] [] [] := ⟨[], rfl, AnnotationUse.leads_nil⟩
    obtain ⟨pending', current', waits, notes⟩ := nobody.notes isFine.notes
    -- The semicolon ends the member, and the line break behind it an empty one.
    have shape (rest : List Glyph) : field.memberCode ++ rest = field.notesCode ++
        (field.typedCode ++ Glyph.plain ';' :: Glyph.plain '\n' :: rest) := by
      simp [DeclaredField.memberCode]
    have nothing : AnnotationUse.leading ([] : List Glyph).reverse = ([], []) :=
      AnnotationUse.leads_nil.alone
    rw [List.flatMap_cons, shape, DeclaredField.notesCode, notes,
      membersOf_typedCode isFine isType here (by simpa using waits),
      membersOf_closed (.inr rfl) nothing, List.append_nil,
      ih later (List.nodup_cons.mp distinct).2 (fresh.append distinct)]
    cases given : field.mapped? <;> simp [given]

end Members

end Entity

end IndexAudit
