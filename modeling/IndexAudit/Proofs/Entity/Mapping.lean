import IndexAudit.Proofs.Entity.Body
import IndexAudit.Proofs.Entity.Header

/-!
Entities are mapped as they are declared.

The mapping is the same whether the fields are the parameters of a constructor or the members of a
body.
-/

namespace IndexAudit

/-! The fields that every entity has. -/

/-- A key is written at the end unless it is there. -/
theorem putMissing_eq (key value : String) (entries : List (String × String)) :
    putMissing key value entries =
      entries ++ if entries.any (·.1 == key) then [] else [(key, value)] := by
  -- Missing means that no entry has the key, and then the new one comes at the end.
  unfold putMissing
  split
  · simp
  · rename_i absent
    refine Entity.putEntry_fresh (fun entry member same => absent ?_) value
    exact List.any_eq_true.mpr ⟨entry, member, by simpa using same⟩

/-- The standard fields that are not declared come behind the declared ones. -/
theorem TableMapping.ofDeclared_eq (entityName tableName : String)
    (declared : List (String × String)) :
    TableMapping.ofDeclared entityName tableName declared = ⟨entityName, tableName,
      declared ++ Entity.standardFields.filter fun standard =>
        !declared.any fun entry => entry.1 == standard.1⟩ := by
  simp only [ofDeclared, putMissing_eq, idField, Entity.standardFields, List.any_append,
    List.filter_cons, List.filter_nil]
  -- Each of the standard fields is declared or not.
  generalize declared.any (·.1 == "id") = hasId
  generalize declared.any (·.1 == "createdAt") = hasCreated
  generalize declared.any (·.1 == "updatedAt") = hasUpdated
  cases hasId <;> cases hasCreated <;> cases hasUpdated <;> simp

namespace Entity

/-! The parameters of a constructor. -/

/-- A parameter is added with its own annotations. -/
theorem addMember_parameterCode {field : DeclaredField} (fine : field.IsFine true)
    {entries : List (String × String)} (fresh : Fresh entries [field]) :
    addMember [] field.parameterCode entries = entries ++ field.mapped?.toList := by
  have alone : AnnotationUse.leading field.propertyCode = ([], field.propertyCode) :=
    AnnotationUse.leading_plain (by decide) (by decide) _
  have begins : AnnotationUse.Begins field.propertyCode := by
    intro glyph first
    obtain rfl : Glyph.plain 'v' = glyph := Option.some.inj first
    decide
  -- The space behind the comma is passed over with the annotations.
  have space : AnnotationUse.Leads [Glyph.plain ' '] [] := AnnotationUse.leads_spacing (by decide)
  have read := (space.append (DeclaredField.leads_notesCode fine)).reads _ begins
  rw [alone, List.append_nil] at read
  exact addMember_eq fine read rfl (DeclaredField.fieldName?_propertyCode fine.named) fresh

/-- Parameters are added in their order. -/
theorem foldl_parameters {fields : List DeclaredField} {entries : List (String × String)}
    (fine : ∀ field ∈ fields, field.IsFine true) (distinct : (fields.map (·.name)).Nodup)
    (fresh : Fresh entries fields) :
    (fields.map (·.parameterCode)).foldl (fun entries part => addMember [] part entries) entries =
      entries ++ fields.filterMap (·.mapped?) := by
  -- The entries grow with each field, and stay apart from the fields that are left.
  induction fields generalizing entries with
  | nil => simp
  | cons field fields ih =>
    obtain ⟨isFine, later⟩ := List.forall_mem_cons.mp fine
    have here : Fresh entries [field] := fun entry member other isOther =>
      fresh entry member other (by simp_all)
    rw [List.map_cons, List.foldl_cons, addMember_parameterCode isFine here,
      ih later (List.nodup_cons.mp distinct).2 (fresh.append distinct)]
    cases given : field.mapped? <;> simp [given]

/-- The parameters of a constructor are what stands in its brackets. -/
theorem constructorParameters?_group {commas : Bool} {inside : List Glyph}
    (balanced : Glyph.Balanced true commas inside) :
    constructorParameters? (Glyph.plain '(' :: (inside ++ [Glyph.plain ')'])) =
      some (inside, []) := by
  have spaced : AnnotationUse.skipSpacing (Glyph.plain '(' :: (inside ++ [Glyph.plain ')'])) =
      Glyph.plain '(' :: (inside ++ [Glyph.plain ')']) := List.dropWhile_cons_of_neg (by decide)
  have close := Glyph.closeIndex_group '(' ')' (by decide) balanced []
  -- The definition keeps the equation of its match, so its cases are split and not rewritten.
  rw [constructorParameters?]
  split
  · rename_i nothing
    rw [spaced] at nothing
    cases nothing
  · rename_i glyph rest start
    rw [spaced] at start
    cases start
    rw [if_neg (by decide), if_pos (by decide), close]
    simp

/-- No parameters stand in front of a block. -/
theorem constructorParameters?_block (rest : List Glyph) :
    constructorParameters? (Glyph.plain ' ' :: Glyph.plain '\x7b' :: rest) = none := by
  have spaced : AnnotationUse.skipSpacing (Glyph.plain ' ' :: Glyph.plain '\x7b' :: rest) =
      Glyph.plain '\x7b' :: rest := by
    rw [AnnotationUse.skipSpacing, List.dropWhile_cons_of_pos (by decide),
      List.dropWhile_cons_of_neg (by decide)]
  have word : firstWord (Glyph.shownText (Glyph.plain '\x7b' :: rest)) = [] :=
    List.takeWhile_cons_of_neg (by decide)
  -- A brace is neither a sign nor a bracket, and begins no word that could be `constructor`.
  rw [constructorParameters?]
  split
  · rfl
  · rename_i glyph more start
    rw [spaced] at start
    cases start
    rw [if_neg (by decide), if_neg (by decide), if_neg (by decide), word]

/-- The body of a class is what stands in the curly brackets behind its name. -/
theorem classBody?_block {angled commas : Bool} {inside : List Glyph}
    (balanced : Glyph.Balanced angled commas inside) :
    classBody? (Glyph.plain ' ' :: Glyph.plain '\x7b' :: (inside ++ [Glyph.plain '\x7d'])) =
      some inside := by
  have close := Glyph.closeIndex_group '\x7b' '\x7d' (by decide) balanced []
  have index : bodyIndex? 0 (Glyph.plain ' ' :: Glyph.plain '\x7b' ::
      (inside ++ [Glyph.plain '\x7d'])) = some 1 := by
    simp [bodyIndex?, Glyph.plain, Glyph.shown, Segment.depthAfter]
  -- Only a space stands in front of the block.
  have noClass : Declaration.find ["class".toList] none [Glyph.plain ' '] = none := by decide
  simp only [classBody?, index, Option.bind_eq_bind, Option.bind_some, List.take_succ_cons,
    List.take_zero, noClass, Option.isSome_none, Bool.false_eq_true, if_false, List.drop_succ_cons,
    List.drop_zero, close]
  simp

/-! The mapping. -/

/-- A text is mapped as the code that it spells. -/
theorem mappingOfText?_eq {code : List Glyph} {text : List Char}
    (spelled : Glyph.Spells code text []) (ended : text.getLast? ≠ some '\n') :
    mappingOfText? text = mapping? code := by
  -- Spelled code has no comments, so the code of its lines is the text itself.
  rw [mappingOfText?, SourceLine.codeText_spelled spelled ended, spelled.ofCode_eq]

/-- What is mapped of an entity with fields behind its name is the mapping that is meant. -/
theorem mappingOfText?_header {entity : DeclaredEntity} (named : IsName entity.name)
    (table : IsColumnName entity.table) {first : Glyph} {rest : List Glyph} {text : List Char}
    {last : Char} (spelled : Glyph.Spells (first :: rest) (text ++ [last]) [])
    (stop : isWordChar first.shown = false) (ended : last ≠ '\n')
    (fields : fieldsBehind (first :: rest) = entity.fields.filterMap (·.mapped?)) :
    mappingOfText? (entity.header ++ (text ++ [last])) = some entity.mapping := by
  have whole := (DeclaredEntity.spells_header named (text ++ [last] ++ [])).append spelled
  -- The header and the fields spell the whole text, so it is read as that code.
  rw [mappingOfText?_eq whole (by simpa using ended),
    DeclaredEntity.mapping?_header named table (by simpa using stop), fields,
    TableMapping.ofDeclared_eq]
  rfl

/-- The parameters of a constructor are code in which brackets and angles match. -/
theorem writes_parameters {fields : List DeclaredField}
    (fine : ∀ field ∈ fields, field.IsFine true ∧ IsType field.type) :
    Glyph.Writes true true ([Glyph.plain ','].intercalate (fields.map (·.parameterCode)))
      ([','].intercalate (fields.map (·.parameter))) [')'] := by
  induction fields with
  | nil => exact ⟨.done, .nil⟩
  | cons field fields ih =>
    obtain ⟨⟨isFine, isType⟩, later⟩ := List.forall_mem_cons.mp fine
    cases fields with
    | nil => simpa using (field.writes_parameterCode isFine isType (by simp)).withCommas
    | cons next fields =>
      have comma {rest : List Char} : Glyph.Writes true true [Glyph.plain ','] [','] rest :=
        ⟨.plain (by decide) (by decide) (by simp) .done,
          .level (by decide) (fun _ => by decide) (fun _ => rfl) .nil⟩
      have first : Glyph.Writes true false field.parameterCode field.parameter
          ([','] ++ [','].intercalate ((next :: fields).map (·.parameter)) ++ [')']) :=
        field.writes_parameterCode isFine isType (by simp)
      -- The text and the code are divided in the same way.
      have divided {α : Type} (separator : List α) (write : DeclaredField → List α) :
          separator.intercalate ((field :: next :: fields).map write) =
            write field ++ (separator ++ separator.intercalate ((next :: fields).map write)) := by
        rw [List.map_cons, List.intercalate_cons_of_ne_nil (by simp), List.append_assoc]
      rw [divided, divided]
      exact first.withCommas.append (comma.append (ih later))

/-- Nothing is declared where there is nothing. -/
theorem addMember_nil (entries : List (String × String)) : addMember [] [] entries = entries := by
  -- There is no annotation in an empty member, and no field either.
  have nothing : fieldName? [] = none := by
    rw [fieldName?]
    rfl
  have alone : AnnotationUse.leading [] = ([], []) := AnnotationUse.leads_nil.alone
  simp only [addMember, alone]
  rw [show trim (Glyph.shownText []) = [] from rfl, nothing]

/-- The fields of a constructor are read from behind the name of the class. -/
theorem fieldsBehind_constructor {fields : List DeclaredField}
    (fine : ∀ field ∈ fields, field.IsFine true ∧ IsType field.type)
    (distinct : (fields.map (·.name)).Nodup) :
    fieldsBehind (Glyph.plain '(' ::
      ([Glyph.plain ','].intercalate (fields.map (·.parameterCode)) ++ [Glyph.plain ')'])) =
      fields.filterMap (·.mapped?) := by
  have parameters := constructorParameters?_group (writes_parameters fine).balanced
  have noBody : classBody? [] = none := rfl
  simp only [fieldsBehind, parameters, noBody]
  cases fields with
  | nil =>
    -- Without parameters there is a single part with nothing in it.
    exact addMember_nil []
  | cons field fields =>
    have balanced : ∀ part ∈ (field :: fields).map (·.parameterCode),
        Glyph.Balanced true false part := by
      intro part member
      obtain ⟨other, isField, rfl⟩ := List.mem_map.mp member
      obtain ⟨isFine, isType⟩ := fine other isField
      have writes : Glyph.Writes true false _ _ [] :=
        other.writes_parameterCode isFine isType (by simp)
      exact writes.balanced
    rw [Glyph.splitTop_intercalate (by simp) balanced,
      foldl_parameters (fun other isField => (fine other isField).1) distinct
        fresh_nil, List.nil_append]

/-- The fields of a body are read from behind the name of the class. -/
theorem fieldsBehind_body {fields : List DeclaredField}
    (fine : ∀ field ∈ fields, field.IsFine false ∧ IsMemberType field.type)
    (distinct : (fields.map (·.name)).Nodup) :
    fieldsBehind (Glyph.plain ' ' :: Glyph.plain '\x7b' ::
      ((Glyph.plain '\n' :: fields.flatMap (·.memberCode)) ++ [Glyph.plain '\x7d'])) =
      fields.filterMap (·.mapped?) := by
  have members : Glyph.Writes false true (fields.flatMap (·.memberCode))
      (fields.flatMap (·.member)) [] :=
    Glyph.writes_flatMap (fun field isField rest =>
      field.writes_memberCode (fine field isField).1 (fine field isField).2 rest) []
  -- The body closes every bracket it opens, so its end is the brace behind it.
  have balanced : Glyph.Balanced false true (Glyph.plain '\n' :: fields.flatMap (·.memberCode)) :=
    .level (by decide) (fun _ => by decide) (fun _ => rfl) members.balanced
  have body := classBody?_block balanced
  have nothing : AnnotationUse.leading ([] : List Glyph).reverse = ([], []) :=
    AnnotationUse.leads_nil.alone
  have added := membersOf_members fine distinct fresh_nil
  simp only [fieldsBehind, constructorParameters?_block, body]
  exact (membersOf_closed (.inr rfl) nothing _).trans added

/-- A bracket is spelled as it is. -/
theorem spells_bracket (c : Char) (listed : c ∈ ['(', ')', '\x7b', '\x7d']) {rest : List Char} :
    Glyph.Spells [Glyph.plain c] [c] rest := by
  -- None of the four begins a literal or a comment.
  have plain : ∀ d ∈ ['(', ')', '\x7b', '\x7d'], d ≠ '"' ∧ d ≠ '\'' ∧ d ≠ '\r' ∧ d ≠ '/' := by
    decide
  exact Glyph.spells_plain [c] fun d member => List.mem_singleton.mp member ▸ plain c listed

/-- An entity with a constructor is mapped as it is declared. -/
theorem mappingOfText?_constructorText {entity : DeclaredEntity} (fine : entity.IsFine true)
    (types : ∀ field ∈ entity.fields, IsType field.type) :
    mappingOfText? entity.constructorText = some entity.mapping := by
  have fields := fun field isField => And.intro (fine.fields field isField) (types field isField)
  have spelled := (spells_bracket '(' (by decide)).append
    ((writes_parameters fields).spelled.append (spells_bracket ')' (by decide)))
  -- The last bracket stands apart, as the text must not end with a line break.
  have text : entity.constructorText = entity.header ++
      ((['('] ++ [','].intercalate (entity.fields.map (·.parameter))) ++ [')']) := by
    simp [DeclaredEntity.constructorText]
  rw [text]
  rw [← List.append_assoc] at spelled
  exact mappingOfText?_header fine.named fine.table spelled (by decide) (by decide)
    (fieldsBehind_constructor fields fine.distinct)

/-- An entity with a body is mapped as it is declared. -/
theorem mappingOfText?_bodyText {entity : DeclaredEntity} (fine : entity.IsFine false)
    (types : ∀ field ∈ entity.fields, IsMemberType field.type) :
    mappingOfText? entity.bodyText = some entity.mapping := by
  have fields := fun field isField => And.intro (fine.fields field isField) (types field isField)
  have members : Glyph.Spells (entity.fields.flatMap (·.memberCode))
      (entity.fields.flatMap (·.member)) ['\x7d'] :=
    (Glyph.writes_flatMap (fun field isField rest =>
      field.writes_memberCode (fields field isField).1 (fields field isField).2 rest) _).spelled
  -- The body is read as it is spelled, as is the header in front of it.
  have spelled := (Glyph.spells_plain [' ', '\x7b', '\n'] (by decide)).append
    (members.append (spells_bracket '\x7d' (by decide)))
  have text : entity.bodyText = entity.header ++
      (([' ', '\x7b', '\n'] ++ entity.fields.flatMap (·.member)) ++ ['\x7d']) := by
    simp [DeclaredEntity.bodyText]
  rw [text]
  rw [← List.append_assoc] at spelled
  exact mappingOfText?_header fine.named fine.table spelled (by decide) (by decide)
    (fieldsBehind_body fields fine.distinct)

/-- Entities are mapped as they are declared, by a constructor or by a body. -/
theorem mappingOfText?_declared (entity : DeclaredEntity) :
    (entity.IsFine true → (∀ field ∈ entity.fields, IsType field.type) →
      mappingOfText? entity.constructorText = some entity.mapping) ∧
    (entity.IsFine false → (∀ field ∈ entity.fields, IsMemberType field.type) →
      mappingOfText? entity.bodyText = some entity.mapping) :=
  -- Each way of writing has its own conditions, and is mapped by itself.
  ⟨mappingOfText?_constructorText, mappingOfText?_bodyText⟩

/-- An entity with a column of an odd name, a relation, and a standard field. -/
def orderEntity : DeclaredEntity where
  name := "Order".toList
  table := "orders".toList
  fields := [
    ⟨"total".toList, "Money".toList, [(.column "net, \"EUR\" (1)".toList, " ".toList)]⟩,
    ⟨"lines".toList, "List<Line>".toList,
      [(.other ⟨"Size".toList, some "max = 9".toList⟩, "\n".toList),
        (.other ⟨"OneToMany".toList, none⟩, " ".toList)]⟩,
    ⟨"createdAt".toList, "Instant".toList, []⟩]

/-- The entity may be declared, its types being those of members of a body. -/
theorem orderEntity_fine (angled : Bool) :
    orderEntity.IsFine angled ∧ ∀ field ∈ orderEntity.fields, IsMemberType field.type := by
  have size : AnnotationUse.IsWritten angled ⟨"Size".toList, some "max = 9".toList⟩ := by
    refine ⟨by decide, by decide, fun args given => ?_⟩
    obtain rfl : "max = 9".toList = args := Option.some.inj given
    exact (Glyph.isCode_flat (by decide)).withCommas
  have relation : AnnotationUse.IsWritten angled ⟨"OneToMany".toList, none⟩ :=
    ⟨by decide, by decide, by simp⟩
  -- The angles of a type are brackets only here.
  have list : IsType "List<Line>".toList := by
    have spelled : Glyph.Spells ("List<Line>".toList.map Glyph.plain) "List<Line>".toList [] :=
      Glyph.spells_plain _ (by decide)
    have outside : Glyph.Balanced true false ("List".toList.map Glyph.plain) :=
      Glyph.balanced_of_flat (by decide)
    have inside : Glyph.Balanced true true ("Line".toList.map Glyph.plain) :=
      (Glyph.balanced_of_flat (by decide)).withCommas
    refine ⟨⟨?_, ?_⟩, by decide⟩ <;> rw [spelled.ofCode_eq]
    · exact spelled
    · exact outside.append (.angles rfl inside (by decide) .nil)
  have space : IsGap " ".toList := ⟨by decide, by decide⟩
  have lineBreak : IsGap "\n".toList := ⟨by decide, by decide⟩
  constructor
  · refine ⟨⟨by decide, by decide⟩, ⟨by decide, by decide, by decide⟩, ?_, by decide⟩
    refine List.forall_mem_cons.mpr ⟨⟨⟨by decide, by decide⟩, ?_⟩,
      List.forall_mem_cons.mpr ⟨⟨⟨by decide, by decide⟩, ?_⟩,
      List.forall_mem_cons.mpr ⟨⟨⟨by decide, by decide⟩, by simp⟩, by simp⟩⟩⟩
    · exact List.forall_mem_cons.mpr ⟨⟨⟨by decide, by decide, by decide⟩, space⟩, by simp⟩
    · exact List.forall_mem_cons.mpr ⟨⟨⟨size, by decide, by decide⟩, lineBreak⟩,
        List.forall_mem_cons.mpr ⟨⟨⟨relation, by decide, by decide⟩, space⟩, by simp⟩⟩
  · refine List.forall_mem_cons.mpr ⟨⟨⟨Glyph.isCode_flat (by decide), by decide⟩, ?_, ?_, ?_⟩,
      List.forall_mem_cons.mpr ⟨⟨list, ?_, ?_, ?_⟩,
      List.forall_mem_cons.mpr ⟨⟨⟨Glyph.isCode_flat (by decide), by decide⟩, ?_, ?_, ?_⟩, by simp⟩⟩⟩
    all_goals decide +kernel

/-- The entity is mapped in either way. -/
theorem mappingOfText?_declared_order :
    (orderEntity.IsFine true ∧ orderEntity.IsFine false ∧
      ∀ field ∈ orderEntity.fields, IsMemberType field.type) ∧
    mappingOfText? orderEntity.constructorText = some ⟨"Order", "orders",
      [("total", "net, \"EUR\" (1)"), ("createdAt", "created_at"), ("id", "id"),
        ("updatedAt", "updated_at")]⟩ ∧
    mappingOfText? orderEntity.bodyText = mappingOfText? orderEntity.constructorText := by
  obtain ⟨angled, types⟩ := orderEntity_fine true
  obtain ⟨flat, -⟩ := orderEntity_fine false
  obtain ⟨constructor, body⟩ := mappingOfText?_declared orderEntity
  -- What a member may have for a type a parameter may have, too.
  have constructor := constructor angled fun field isField => (types field isField).toIsType
  have body := body flat types
  refine ⟨⟨angled, flat, types⟩, constructor.trans ?_, body.trans constructor.symm⟩
  decide +kernel

/-- An entity with a field whose name goes on behind its ASCII letters. -/
def sizeEntity : DeclaredEntity where
  name := "A".toList
  table := "t".toList
  fields := [⟨"größe".toList, "Int".toList, []⟩]

/-- An entity with a lone angle in an annotation. -/
def rangeEntity : DeclaredEntity where
  name := "A".toList
  table := "t".toList
  fields := [
    ⟨"a".toList, "Int".toList, [(.other ⟨"Check".toList, some "1 < 2".toList⟩, " ".toList)]⟩,
    ⟨"b".toList, "Int".toList, []⟩]

/-- An entity with a field whose type is a word that no field begins with. -/
def wordEntity : DeclaredEntity where
  name := "A".toList
  table := "t".toList
  fields := [⟨"f".toList, "object".toList, []⟩]

/-- Such a name is cut, the field behind such an angle is lost, and so is one of such a type. -/
theorem mappingOfText?_ne_mapping :
    mappingOfText? sizeEntity.constructorText = some (.ofDeclared "A" "t" [("gr", "gr")]) ∧
    sizeEntity.mapping = .ofDeclared "A" "t" [("größe", "größe")] ∧
    mappingOfText? rangeEntity.constructorText = some (.ofDeclared "A" "t" [("a", "a")]) ∧
    rangeEntity.mapping = .ofDeclared "A" "t" [("a", "a"), ("b", "b")] ∧
    mappingOfText? wordEntity.bodyText = some (.ofDeclared "A" "t" []) ∧
    wordEntity.mapping = .ofDeclared "A" "t" [("f", "f")] := by
  -- Each text is read, and each mapping computed, as they stand.
  decide +kernel

end Entity

end IndexAudit
