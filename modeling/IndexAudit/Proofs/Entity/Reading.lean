import IndexAudit.Proofs.Entity.Mapping

/-!
Members are read one after the other, and the last one that is read as a field counts.

What is read of a member hangs on the annotations that wait for it, so a body is read in two parts
where a member ends and no annotation waits.
-/

namespace IndexAudit

/-! Entries by their keys. -/

/-- The first entry of a key is the one that is looked up. -/
theorem lookup_entry (entry : String × String) (entries : List (String × String)) (key : String) :
    (entry :: entries).lookup key = if key = entry.1 then some entry.2 else entries.lookup key := by
  rw [show entry = (entry.1, entry.2) from rfl, List.lookup_cons]
  -- Lookup compares the key with that of the entry first.
  by_cases same : key = entry.1
  · simp [same]
  · simp [same, beq_eq_false_iff_ne.mpr same]

/-- A key has the value that was written last. -/
theorem lookup_putEntry (key value other : String) (entries : List (String × String)) :
    (putEntry key value entries).lookup other =
      if other = key then some value else entries.lookup other := by
  induction entries with
  | nil => simp [putEntry]
  | cons entry entries ih =>
    -- The entry of the key is replaced in its place, and all others are left.
    by_cases here : entry.1 = key
    · by_cases same : other = key <;> simp [putEntry, lookup_entry, here, same]
    · by_cases same : other = entry.1
      · have apart : ¬ other = key := fun is => here (same.symm.trans is)
        simp [putEntry, here, lookup_entry, same]
      · simp [putEntry, here, lookup_entry, same, ih]

/-- Entries of other keys may be left out. -/
theorem lookup_filter {kept : String → Bool} {key : String} (keeps : kept key = true)
    (entries : List (String × String)) :
    (entries.filter fun entry => kept entry.1).lookup key = entries.lookup key := by
  induction entries with
  | nil => rfl
  | cons entry entries ih =>
    -- An entry of another key may stay or go; it is not the one that is looked up.
    by_cases same : key = entry.1
    · rw [List.filter_cons_of_pos (by simpa [← same] using keeps), lookup_entry, lookup_entry,
        if_pos same, if_pos same]
    · rw [lookup_entry, if_neg same, ← ih, List.filter_cons]
      split
      · rw [lookup_entry, if_neg same]
      · rfl

/-- A field has the column that is declared for it, and one of the standard fields its own. -/
theorem TableMapping.column?_ofDeclared (entityName tableName : String)
    (declared : List (String × String)) (field : String) :
    (ofDeclared entityName tableName declared).column? field =
      (declared.lookup field).or (Entity.standardFields.lookup field) := by
  rw [ofDeclared_eq, column?, List.lookup_append]
  cases found : declared.lookup field with
  | some column => rfl
  | none =>
    have absent : (!declared.any fun entry => entry.1 == field) = true := by
      simp only [Bool.not_eq_true', List.any_eq_false, beq_iff_eq]
      intro entry member same
      exact absurd (List.lookup_eq_none_iff.mp found entry member) (by simp [same])
    rw [Option.none_or, Option.none_or]
    -- The standard fields without those declared still have this one.
    exact @lookup_filter (fun key => !declared.any fun entry => entry.1 == key) field absent _

namespace Entity

/-! The fields of members, by their names. -/

/-- What a member is read as replaces what the same field was read as before. -/
theorem lookup_addMember (inherited : List AnnotationUse) (code : List Glyph)
    (entries : List (String × String)) (field : String) :
    (addMember inherited code entries).lookup field =
      ((addMember inherited code []).lookup field).or (entries.lookup field) := by
  unfold addMember
  split
  split
  · simp
  · split
    · simp
    · -- A member that declares nothing adds nothing, and any other puts one entry.
      rw [lookup_putEntry, lookup_putEntry]
      split <;> simp

/-- What members are read as replaces what the same field was read as before. -/
theorem lookup_addMembers (pending : List AnnotationUse) (segments : List Segment)
    (entries : List (String × String)) (field : String) :
    (addMembers pending entries segments).lookup field =
      ((addMembers pending [] segments).lookup field).or (entries.lookup field) := by
  -- The members are read in turn, each into the entries that those in front of it left.
  induction segments generalizing pending entries with
  | nil => simp [addMembers]
  | cons segment segments ih =>
    rw [addMembers, addMembers]
    split
    · exact ih [] entries
    split
    · exact ih pending entries
    split
    split
    · exact ih _ entries
    -- Only here is an entry written, by this member, and those behind it still go before it.
    · rw [ih, lookup_addMember, ih [] (addMember pending segment.code []), Option.or_assoc]

/-- What the rest of a body is read as replaces what the same field was read as before. -/
theorem lookup_membersOf (pending : List AnnotationUse) (current code : List Glyph)
    (entries : List (String × String)) (field : String) :
    (membersOf pending entries current code).lookup field =
      ((membersOf pending [] current code).lookup field).or (entries.lookup field) :=
  -- The rest of the body is a list of segments, of which this is known.
  lookup_addMembers pending _ entries field

/-- The annotations that wait behind the members of a body. -/
def waiting (pending : List AnnotationUse) : List Segment → List AnnotationUse
  | [] => pending
  | segment :: rest =>
    if segment.opensBlock then waiting [] rest
    else if Segment.isBlankCode segment.code then waiting pending rest
    else
      let (own, declaration) := AnnotationUse.leading segment.code
      if Segment.isBlankCode declaration then waiting (pending ++ own) rest else waiting [] rest

/-- Members are added behind others with the annotations that wait for them. -/
theorem addMembers_append (pending : List AnnotationUse) (entries : List (String × String))
    (front back : List Segment) :
    addMembers pending entries (front ++ back) =
      addMembers (waiting pending front) (addMembers pending entries front) back := by
  induction front generalizing pending entries with
  | nil => rfl
  | cons segment front ih =>
    cases read : AnnotationUse.leading segment.code with
    | mk own declaration =>
      simp only [List.cons_append, addMembers, waiting, read]
      -- A block, white space, annotations that wait, and a declaration.
      split
      · exact ih [] entries
      split
      · exact ih pending entries
      split
      · exact ih _ entries
      · exact ih [] _

/-! The fields of a class. -/

/-- The fields that the parameters of a constructor and a body declare. -/
def declaredFields (parameters : List (List Glyph)) (body : Option (List Glyph)) :
    List (String × String) :=
  let fields := parameters.foldl (fun fields part => addMember [] part fields) []
  match body with
  | some body => membersOf [] fields [] body
  | none => fields

/-- What parameters are read as replaces what the same field was read as before. -/
theorem lookup_parameters (parameters : List (List Glyph)) (entries : List (String × String))
    (field : String) :
    (parameters.foldl (fun fields part => addMember [] part fields) entries).lookup field =
      ((parameters.foldl (fun fields part => addMember [] part fields) []).lookup field).or
        (entries.lookup field) := by
  induction parameters generalizing entries with
  | nil => simp
  | cons part parameters ih =>
    -- The first parameter replaces what is there, and the others replace that.
    rw [List.foldl_cons, List.foldl_cons, ih, lookup_addMember, ih (addMember [] part []),
      Option.or_assoc]

/-- What the last parameters and the body are read as replaces what is read before. -/
theorem lookup_declaredFields (first later : List (List Glyph)) (body : Option (List Glyph))
    (field : String) :
    (declaredFields (first ++ later) body).lookup field =
      ((declaredFields later body).lookup field).or ((declaredFields first none).lookup field) := by
  have parameters := lookup_parameters later (declaredFields first none) field
  -- Members of the body come last, so they win over all parameters.
  cases body with
  | none => simpa [declaredFields, List.foldl_append] using parameters
  | some body =>
    simp only [declaredFields, List.foldl_append] at parameters ⊢
    rw [lookup_membersOf, parameters, lookup_membersOf _ _ _ (later.foldl _ _), Option.or_assoc]

/-- A field that a member is read as has its name in that member. -/
theorem isInfix_of_lookup_addMember {inherited : List AnnotationUse} {code : List Glyph}
    {field column : String} (found : (addMember inherited code []).lookup field = some column) :
    field.toList <:+: Glyph.shownText code := by
  unfold addMember at found
  split at found
  rename_i own rest read
  split at found
  · cases found
  rename_i name named
  split at found
  · cases found
  · simp only [lookup_putEntry, List.lookup_nil] at found
    split at found
    · rename_i same
      -- The name stands in the declaration, which stands behind the annotations of the member.
      have behind : Glyph.shownText rest <:+ Glyph.shownText code := by
        have ends := AnnotationUse.leading_isSuffix code
        rw [read] at ends
        exact ends.map _
      rw [same, String.toList_ofList]
      exact ((isInfix_of_fieldName? named).trans (trim_isInfix _)).trans behind.isInfix
    · cases found

/-- A field that members are read as has its name in one of them, which has no block. -/
theorem isInfix_of_lookup_addMembers {pending : List AnnotationUse} {segments : List Segment}
    {field column : String} (found : (addMembers pending [] segments).lookup field = some column) :
    ∃ segment ∈ segments, segment.opensBlock = false ∧
      field.toList <:+: Glyph.shownText segment.code := by
  induction segments generalizing pending column with
  | nil => cases found
  | cons segment segments ih =>
    have later {pending : List AnnotationUse} {column : String}
        (found : (addMembers pending [] segments).lookup field = some column) :
        ∃ other ∈ segment :: segments, other.opensBlock = false ∧
          field.toList <:+: Glyph.shownText other.code := by
      obtain ⟨other, member, isInfix⟩ := ih found
      exact ⟨other, List.mem_cons_of_mem segment member, isInfix⟩
    rw [addMembers] at found
    split at found
    · exact later found
    rename_i noBlock
    split at found
    · exact later found
    split at found
    split at found
    · exact later found
    · rw [lookup_addMembers] at found
      -- The field was read last either behind this member or in it.
      rcases Option.or_eq_some_iff.mp found with found | ⟨-, found⟩
      · exact later found
      · exact ⟨segment, List.mem_cons_self, by simpa using noBlock,
          isInfix_of_lookup_addMember found⟩

/-- A field that parameters are read as has its name in one of them. -/
theorem isInfix_of_lookup_parameters {parameters : List (List Glyph)} {field column : String}
    (found : (parameters.foldl (fun fields part => addMember [] part fields) []).lookup field =
      some column) : ∃ code ∈ parameters, field.toList <:+: Glyph.shownText code := by
  induction parameters generalizing column with
  | nil => cases found
  | cons part parameters ih =>
    rw [List.foldl_cons, lookup_parameters] at found
    -- A later parameter of the name wins, so it is asked first.
    rcases Option.or_eq_some_iff.mp found with later | ⟨-, here⟩
    · obtain ⟨code, member, isInfix⟩ := ih later
      exact ⟨code, List.mem_cons_of_mem part member, isInfix⟩
    · exact ⟨part, List.mem_cons_self, isInfix_of_lookup_addMember here⟩

/-- The members of a body that have no block. -/
def blocklessMembers (body : List Glyph) : List (List Glyph) :=
  ((Segment.collect (fun _ => false) 1 0 [] body).filter (!·.opensBlock)).map (·.code)

/-- A field that is read has its name in a parameter or in a member without a block. -/
theorem isInfix_of_lookup_declaredFields {parameters : List (List Glyph)}
    {body : Option (List Glyph)} {field column : String}
    (found : (declaredFields parameters body).lookup field = some column) :
    ∃ code ∈ parameters ++ body.toList.flatMap blocklessMembers,
      field.toList <:+: Glyph.shownText code := by
  -- A field of the constructor is kept unless the body has one of its name.
  have inParameters {column : String}
      (found : (parameters.foldl (fun fields part => addMember [] part fields) []).lookup field =
        some column) : ∃ code ∈ parameters ++ body.toList.flatMap blocklessMembers,
          field.toList <:+: Glyph.shownText code := by
    obtain ⟨code, member, isInfix⟩ := isInfix_of_lookup_parameters found
    exact ⟨code, List.mem_append_left _ member, isInfix⟩
  cases body with
  | none => exact inParameters found
  | some body =>
    rw [declaredFields, membersOf, lookup_addMembers] at found
    rcases Option.or_eq_some_iff.mp found with later | ⟨-, here⟩
    · obtain ⟨segment, member, noBlock, isInfix⟩ := isInfix_of_lookup_addMembers later
      refine ⟨segment.code, List.mem_append_right _ ?_, isInfix⟩
      simpa [blocklessMembers] using ⟨segment, ⟨member, noBlock⟩, rfl⟩
    · exact inParameters here

/-! Bodies in two parts. -/

/-- Code in front of a member: all the members in it have ended, and no annotation waits. -/
structure EndsMembers (code : List Glyph) : Prop where
  closes : Glyph.ClosesBrackets code
  /-- Nothing but white space is left behind the last member. -/
  ended : ∃ members left line,
    Segment.collect (fun _ => false) 1 0 [] code = members ++ [⟨left, line, false⟩] ∧
      (∀ glyph ∈ left, isSpacing glyph.shown = true) ∧ waiting [] members = []

/-- A body is read in two parts where all members have ended. -/
theorem EndsMembers.membersOf_append {front : List Glyph} (ends : EndsMembers front) :
    ∃ left : List Glyph, (∀ glyph ∈ left, isSpacing glyph.shown = true) ∧ ∀ entries rest,
      membersOf [] entries [] (front ++ rest) =
        membersOf [] (membersOf [] entries [] front) left.reverse rest := by
  obtain ⟨members, left, line, cut, blank, nothing⟩ := ends.ended
  refine ⟨left, blank, fun entries rest => ?_⟩
  obtain ⟨next, whole⟩ := Segment.collect_append ends.closes (fun _ => rfl) cut blank rest
  -- The white space behind the last member adds nothing by itself.
  have white : Segment.isBlankCode left = true :=
    List.all_eq_true.mpr fun glyph member => isBlank_of_isSpacing (blank glyph member)
  have alone : membersOf [] entries [] front = addMembers [] entries members := by
    rw [membersOf, cut, addMembers_append]
    simp [addMembers, white]
  rw [alone, membersOf, whole, addMembers_append, nothing, membersOf]
  exact addMembers_collect _ _ _ _ _ _ _ _

end Entity

end IndexAudit
