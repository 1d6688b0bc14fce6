import IndexAudit.Proofs.Entity.Field

/-!
An entity is known by its class, and its table by the annotation in front of that.

Neither search is misled by what the name of the table is.
-/

namespace IndexAudit

namespace Entity

/-- The fields that code behind the name of a class declares. -/
def fieldsBehind (code : List Glyph) : List (String × String) :=
  let parameters := constructorParameters? code
  let fromConstructor := match parameters with
    | some (inside, _) =>
      (Glyph.splitTop ',' true inside).foldl (fun fields part => addMember [] part fields) []
    | none => []
  let afterHeader := match parameters with
    | some (_, after) => after
    | none => code
  match classBody? afterHeader with
  | some body => addMembers [] fromConstructor (Segment.collect (fun _ => false) 1 0 [] body)
  | none => fromConstructor

namespace DeclaredEntity

/-- An entity in front of its fields, as code. -/
def headerCode (entity : DeclaredEntity) : List Glyph :=
  Glyph.plain '@' :: ("Entity".toList.map Glyph.plain ++ (Glyph.plain ' ' ::
    (entity.tableUse.glyphs ++ (Glyph.plain ' ' :: ("class".toList.map Glyph.plain ++
      (Glyph.plain ' ' :: entity.name.map Glyph.plain))))))

variable {entity : DeclaredEntity}

/-- The annotation that names the table is written. -/
theorem tableUse_isWritten (angled : Bool) (entity : DeclaredEntity) :
    entity.tableUse.IsWritten angled :=
  AnnotationUse.isWritten_nameArgument (by decide) (by decide) entity.table

/-- What stands in front of the fields of an entity is code. -/
theorem spells_header (named : IsName entity.name) (rest : List Char) :
    Glyph.Spells entity.headerCode entity.header rest := by
  have front {rest : List Char} :
      Glyph.Spells ("@Entity ".toList.map Glyph.plain) "@Entity ".toList rest :=
    Glyph.spells_plain _ (by decide)
  have table {rest : List Char} : Glyph.Spells entity.tableUse.glyphs entity.tableUse.render rest :=
    (AnnotationUse.writes_render (tableUse_isWritten false entity) rest).spelled
  have keyword {rest : List Char} :
      Glyph.Spells (" class ".toList.map Glyph.plain) " class ".toList rest :=
    Glyph.spells_plain _ (by decide)
  have name : Glyph.Writes false false (entity.name.map Glyph.plain) entity.name rest :=
    Glyph.writes_flat _ (flat_of_isName named)
  -- The parts stand one behind the other, and each is spelled whatever comes next.
  exact front.append (table.append (keyword.append name.spelled))

/-- Nothing in the annotation that names the table is taken for another one or for a class. -/
theorem tableUse_apart (entity : DeclaredEntity) :
    ∃ tail, entity.tableUse.glyphs = Glyph.plain '@' :: tail ∧
      ∀ glyph ∈ tail, glyph.shown ≠ '@' ∧ glyph.shown ≠ 'c' := by
  refine ⟨_, AnnotationUse.glyphs_nameArgument _ _, fun glyph member => ?_⟩
  -- The name of the table itself is hidden in its literal.
  have word : ∀ glyph ∈ "Table".toList.map Glyph.plain, glyph.shown ≠ '@' ∧ glyph.shown ≠ 'c' := by
    decide
  have argument : ∀ glyph ∈ "name = ".toList.map Glyph.plain,
      glyph.shown ≠ '@' ∧ glyph.shown ≠ 'c' := by decide
  have quoted : ∀ c ∈ ['"', ' ', '\n'], c ≠ '@' ∧ c ≠ 'c' := by decide
  simp only [List.mem_append, List.mem_cons, List.not_mem_nil, or_false] at member
  rcases member with isWord | rfl | ((isArgument | isQuoted) | rfl)
  · exact word glyph isWord
  · decide
  · exact argument glyph isArgument
  · exact quoted _ (AnnotationUse.shown_literal glyph isQuoted)
  · decide

/-- The annotation that names the table is one of that name. -/
theorem afterMarker?_tableUse (entity : DeclaredEntity) (rest : List Glyph) :
    (AnnotationUse.afterMarker? "Table".toList (entity.tableUse.glyphs ++ rest)).isSome = true := by
  have word : IsName "Table".toList := ⟨by decide, by decide⟩
  -- A word ends where its parentheses begin.
  have marker := AnnotationUse.afterMarker?_plain word
    (Glyph.plain '(' :: ("name = ".toList.map Glyph.plain ++ Literal.glyphs entity.table ++
      [Glyph.plain ')'] ++ rest)) (by simp [Glyph.plain, Glyph.shown, isWordChar])
  rw [tableUse, AnnotationUse.glyphs_nameArgument, List.cons_append, List.append_assoc,
    List.cons_append, marker]
  rfl

/-- The class of an entity is found behind the annotations. -/
theorem find_class (named : IsName entity.name) {rest : List Glyph}
    (stop : ∀ glyph ∈ rest.head?, isWordChar glyph.shown = false) (previous : Option Char) :
    Declaration.find ["class".toList] previous
      (Glyph.plain ' ' :: (entity.tableUse.glyphs ++ (Glyph.plain ' ' ::
        ("class".toList.map Glyph.plain ++
          (Glyph.plain ' ' :: (entity.name.map Glyph.plain ++ rest)))))) =
      some ⟨Glyph.plain ' ' :: (entity.tableUse.glyphs ++ [Glyph.plain ' ']),
        entity.name, rest⟩ := by
  obtain ⟨tail, shape, apart⟩ := tableUse_apart entity
  have front : ∀ glyph ∈ (Glyph.plain ' ' :: entity.tableUse.glyphs) ++ [Glyph.plain ' '],
      glyph.shown ≠ 'c' := by
    intro glyph member
    simp only [shape, List.mem_append, List.mem_cons, List.not_mem_nil, or_false] at member
    rcases member with (rfl | rfl | inTail) | rfl
    · decide
    · decide
    · exact (apart glyph inTail).2
    · decide
  -- The search passes over the annotation, and the word behind it is not joined to it.
  have passed := Declaration.find_passed "lass".toList front previous
    ("class".toList.map Glyph.plain ++ (Glyph.plain ' ' :: (entity.name.map Glyph.plain ++ rest)))
  have start : (some ' ').any isWordChar = false := by decide
  have here := Declaration.find_here 'c' "lass".toList named start stop
  have whole : 'c' :: "lass".toList = "class".toList := by decide
  rw [whole] at passed here
  rw [show (Glyph.plain ' ').shown = ' ' from rfl, here] at passed
  simpa using passed

/-- The table of an entity is read in the annotation in front of the class. -/
theorem tableName?_eq (table : IsColumnName entity.table) (rest : List Glyph) :
    tableName? ("@Entity ".toList.map Glyph.plain ++ (entity.tableUse.glyphs ++ [Glyph.plain ' ']))
      ("@Entity ".toList.map Glyph.plain ++ (entity.tableUse.glyphs ++ (Glyph.plain ' ' ::
        Glyph.plain 'c' :: rest))) = some entity.table := by
  obtain ⟨tail, shape, apart⟩ := tableUse_apart entity
  have nothing :
      AnnotationUse.lastMarkerIndex? "Table".toList (tail ++ [Glyph.plain ' ']) = none := by
    refine AnnotationUse.lastMarkerIndex?_none fun glyph member => ?_
    rcases List.mem_append.mp member with inTail | isLast
    · exact (apart glyph inTail).1
    · rw [List.mem_singleton.mp isLast]
      decide
  have here : AnnotationUse.lastMarkerIndex? "Table".toList
      (entity.tableUse.glyphs ++ [Glyph.plain ' ']) = some 0 := by
    have marker := afterMarker?_tableUse entity [Glyph.plain ' ']
    rw [shape, List.cons_append] at marker ⊢
    simp only [AnnotationUse.lastMarkerIndex?, nothing, marker, if_true]
  -- The other annotation comes in front, so it does not count.
  have index := AnnotationUse.lastMarkerIndex?_append here ("@Entity ".toList.map Glyph.plain)
  have ends : AnnotationUse.Ends (Glyph.plain ' ' :: Glyph.plain 'c' :: rest) := by
    constructor
    · simp [Glyph.plain, Glyph.shown, AnnotationUse.isNameChar]
    · simp [AnnotationUse.skipSpacing, Glyph.plain, Glyph.shown, isSpacing]
  have read := AnnotationUse.read?_glyphs (tableUse_isWritten false entity) fun _ => ends
  have name : declaredName? entity.tableUse.short = some entity.table := by
    have given := AnnotationUse.stringArgument_nameArgument (simpleName "Table".toList) entity.table
    have given : entity.tableUse.short.stringArgument "name".toList = some entity.table := given
    simp only [declaredName?, given, Option.bind_eq_bind, Option.bind_some, table.clean]
    simp [table.filled]
  have behind : ("@Entity ".toList.map Glyph.plain ++ (entity.tableUse.glyphs ++ (Glyph.plain ' ' ::
      Glyph.plain 'c' :: rest))).drop (("@Entity ".toList.map Glyph.plain).length + 0) =
      entity.tableUse.glyphs ++ (Glyph.plain ' ' :: Glyph.plain 'c' :: rest) := List.drop_left
  simp only [tableName?, index, behind, read, name, Option.bind_eq_bind, Option.bind_some]

/-- An entity is mapped to its table, with the fields that are declared behind its name. -/
theorem mapping?_header (named : IsName entity.name) (table : IsColumnName entity.table)
    {rest : List Glyph} (stop : ∀ glyph ∈ rest.head?, isWordChar glyph.shown = false) :
    mapping? (entity.headerCode ++ rest) = some (.ofDeclared (String.ofList entity.name)
      (String.ofList entity.table) (fieldsBehind rest)) := by
  have front : ∀ (code : List Glyph), AnnotationUse.findMarker "Entity".toList
      ("@Entity".toList.map Glyph.plain ++ Glyph.plain ' ' :: code) =
      some ([], Glyph.plain ' ' :: code) := by
    intro code
    have word : IsName "Entity".toList := ⟨by decide, by decide⟩
    have marker := AnnotationUse.afterMarker?_plain word (Glyph.plain ' ' :: code)
      (by simp [Glyph.plain, Glyph.shown, isWordChar])
    have shape : "@Entity".toList.map Glyph.plain =
        Glyph.plain '@' :: "Entity".toList.map Glyph.plain := by decide
    rw [shape, List.cons_append, AnnotationUse.findMarker, marker]
  generalize behind : entity.tableUse.glyphs ++ (Glyph.plain ' ' ::
    ("class".toList.map Glyph.plain ++
      (Glyph.plain ' ' :: (entity.name.map Glyph.plain ++ rest)))) = code
  have whole : entity.headerCode ++ rest =
      "@Entity".toList.map Glyph.plain ++ Glyph.plain ' ' :: code := by
    rw [← behind]
    simp [headerCode]
  -- The annotation of the entity is taken off by its length.
  have marked : ("@Entity".toList.map Glyph.plain ++ Glyph.plain ' ' :: code).take
      (("@Entity".toList.map Glyph.plain ++ Glyph.plain ' ' :: code).length -
        (Glyph.plain ' ' :: code).length) = "@Entity".toList.map Glyph.plain := by
    rw [List.length_append, Nat.add_sub_cancel, List.take_left]
  have previous : ("@Entity".toList.map Glyph.plain).getLast?.map (·.shown) = some 'y' := by decide
  have declared := find_class named stop (some 'y')
  rw [behind] at declared
  have named := tableName?_eq table ("lass".toList.map Glyph.plain ++
    (Glyph.plain ' ' :: (entity.name.map Glyph.plain ++ rest)))
  have word : "class".toList.map Glyph.plain =
      Glyph.plain 'c' :: "lass".toList.map Glyph.plain := by decide
  have spaced : "@Entity ".toList.map Glyph.plain =
      "@Entity".toList.map Glyph.plain ++ [Glyph.plain ' '] := by decide
  rw [word, List.cons_append] at behind
  rw [behind, spaced, List.append_assoc, List.append_assoc, List.singleton_append,
    List.singleton_append] at named
  simp only [mapping?, whole, front, marked, previous, declared, named, Option.bind_eq_bind,
    Option.bind_some]
  rfl

end DeclaredEntity

end Entity

end IndexAudit
