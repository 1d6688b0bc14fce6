import IndexAudit.Entity
import IndexAudit.Proofs.Code.Annotation
import IndexAudit.Proofs.Code.Declaration

/-!
Entities as they are meant, and how each one is declared.

The fields are either the parameters of a primary constructor or the members of a body. Both ways
declare the same mapping. A declaration names its field behind a keyword or behind a type, with
modifiers in front or without. What stands behind the name may be anything that does not go on with
it.
-/

namespace IndexAudit

namespace Entity

/-! What an entity declares. -/

/-- An annotation of a field. -/
inductive FieldNote where
  | column (name : List Char)
  | joinColumn (name : List Char)
  /-- An annotation that names no column. -/
  | other (note : AnnotationUse)
deriving Repr, DecidableEq

/-- A field of an entity, each of its annotations with the white space behind it. -/
structure DeclaredField where
  name : List Char
  type : List Char
  notes : List (FieldNote × List Char)
deriving Repr, DecidableEq

/-- An entity with the table that it names. -/
structure DeclaredEntity where
  name : List Char
  table : List Char
  fields : List DeclaredField
deriving Repr, DecidableEq

namespace FieldNote

/-- The column that a column annotation names. -/
def column? : FieldNote → Option (List Char)
  | .column name => some name
  | _ => none

/-- The column that a join column annotation names. -/
def joinColumn? : FieldNote → Option (List Char)
  | .joinColumn name => some name
  | _ => none

/-- Whether fields with an annotation have no column of their own. -/
def excludes : FieldNote → Bool
  | .other note => unmappedAnnotations.contains (String.ofList (simpleName note.name))
  | _ => false

/-- The annotation that is written. -/
def use : FieldNote → AnnotationUse
  | .column name => ⟨"Column".toList, some (AnnotationUse.nameArgument name)⟩
  | .joinColumn name => ⟨"JoinColumn".toList, some (AnnotationUse.nameArgument name)⟩
  | .other note => note

end FieldNote

namespace DeclaredField

/-- The column behind a field, if it has one. -/
def column? (field : DeclaredField) : Option String :=
  let notes := field.notes.map (·.1)
  match (notes.findSome? (·.column?)).or (notes.findSome? (·.joinColumn?)) with
  | some name => some (String.ofList name)
  | none => if notes.any (·.excludes) then none else some (snakeCase (String.ofList field.name))

/-- A field with its column, if it has one. -/
def mapped? (field : DeclaredField) : Option (String × String) :=
  field.column?.map fun column => (String.ofList field.name, column)

end DeclaredField

/-- The fields that each entity has, whether it declares them or not, with their columns. -/
def standardFields : List (String × String) :=
  [("id", "id"), ("createdAt", "created_at"), ("updatedAt", "updated_at")]

/-- The mapping that is meant: the declared fields with a column, and then the standard ones. -/
def DeclaredEntity.mapping (entity : DeclaredEntity) : TableMapping :=
  let declared := entity.fields.filterMap (·.mapped?)
  { entityName := String.ofList entity.name
    tableName := String.ofList entity.table
    fields := declared ++ standardFields.filter fun standard =>
      !declared.any fun entry => entry.1 == standard.1 }

/-! How an entity is written. -/

/-- The annotations of a field, each with the white space behind it. -/
def DeclaredField.notesText (field : DeclaredField) : List Char :=
  field.notes.flatMap fun note => note.1.use.render ++ note.2

/-- A field as a parameter of a constructor. -/
def DeclaredField.parameter (field : DeclaredField) : List Char :=
  ' ' :: (field.notesText ++ ("val ".toList ++ (field.name ++ (": ".toList ++ field.type))))

/-- A field as a member of a body, on a line of its own apart from its annotations. -/
def DeclaredField.member (field : DeclaredField) : List Char :=
  field.notesText ++ ("private ".toList ++ (field.type ++ (' ' :: (field.name ++ ";\n".toList))))

namespace DeclaredEntity

/-- The annotation that names the table. -/
def tableUse (entity : DeclaredEntity) : AnnotationUse :=
  ⟨"Table".toList, some (AnnotationUse.nameArgument entity.table)⟩

/-- An entity in front of its fields. -/
def header (entity : DeclaredEntity) : List Char :=
  '@' :: ("Entity ".toList ++ (entity.tableUse.render ++ (" class ".toList ++ entity.name)))

/-- An entity whose fields are the parameters of its constructor. -/
def constructorText (entity : DeclaredEntity) : List Char :=
  entity.header ++ '(' :: ([','].intercalate (entity.fields.map (·.parameter)) ++ [')'])

/-- An entity whose fields are the members of its body. -/
def bodyText (entity : DeclaredEntity) : List Char :=
  entity.header ++ (" \x7b\n".toList ++ (entity.fields.flatMap (·.member) ++ ['\x7d']))

end DeclaredEntity

/-! What may be declared. -/

/-- A name of a table or column, with neither white space nor quotes around it. -/
structure IsColumnName (name : List Char) : Prop where
  filled : name ≠ []
  starts : ∀ c ∈ name.head?, isBlank c = false ∧ isNameQuote c = false
  ends : ∀ c ∈ name.getLast?, isBlank c = false ∧ isNameQuote c = false

/-- White space between annotations. -/
structure IsGap (gap : List Char) : Prop where
  filled : gap ≠ []
  spaced : ∀ c ∈ gap, isSpacing c = true ∧ c ≠ '\r'

/-- A type on one line in which brackets and angles match, with no commas outside of them. -/
structure IsType (type : List Char) : Prop extends Glyph.IsCode true false type where
  inLine : '\n' ∉ type

/-- What a search sees of a type. -/
def seen (type : List Char) : List Char :=
  Glyph.shownText (Glyph.ofCode type)

/-- The words that a member of a body does not begin with if it is a field of that type. -/
def reservedWords : List String :=
  nonFieldWords ++ fieldModifiers ++ ["val", "var"]

/-- A type that a member of a body may have: one without parentheses, blocks and values. -/
structure IsMemberType (type : List Char) : Prop extends IsType type where
  visible : (seen type).head?.any (!isBlank ·) = true
  unreserved : String.ofList (firstWord (seen type)) ∉ reservedWords
  flat : ∀ c ∈ seen type, c ≠ '(' ∧ c ≠ '\x7b' ∧ c ≠ ';' ∧ c ≠ '=' ∧ c ≠ ':'

/-- An annotation that may be written; `angled` says that angles in its arguments match too. -/
def FieldNote.IsFine (angled : Bool) : FieldNote → Prop
  | .column name => IsColumnName name
  | .joinColumn name => IsColumnName name
  | .other note => note.IsWritten angled ∧
      simpleName note.name ≠ "Column".toList ∧ simpleName note.name ≠ "JoinColumn".toList

/-- A field with a name and with annotations that may be written. -/
structure DeclaredField.IsFine (angled : Bool) (field : DeclaredField) : Prop where
  named : IsName field.name
  notes : ∀ note ∈ field.notes, note.1.IsFine angled ∧ IsGap note.2

/-- An entity with a name and a table, and with fields of different names. -/
structure DeclaredEntity.IsFine (angled : Bool) (entity : DeclaredEntity) : Prop where
  named : IsName entity.name
  table : IsColumnName entity.table
  fields : ∀ field ∈ entity.fields, field.IsFine angled
  distinct : (entity.fields.map (·.name)).Nodup

/-! How a field is declared. -/

/-- The keywords of a property. -/
def propertyKeywords : List (List Char) :=
  ["val".toList, "var".toList]

/-- A type that may stand in front of the name of a field, as a search sees it. -/
structure IsFieldType (type : List Char) : Prop where
  visible : type.head?.any (!isBlank ·) = true
  unreserved : String.ofList (firstWord type) ∉ reservedWords
  flat : ∀ c ∈ type, c ≠ '(' ∧ c ≠ '=' ∧ c ≠ ':'

/-- A declaration without annotations, as a search sees it, of a field of a given name. -/
inductive DeclaresField (name : List Char) : List Char → Prop
  | property {keyword gap rest : List Char} (listed : keyword ∈ propertyKeywords)
      (isGap : IsGap gap) (stop : ∀ c ∈ rest.head?, isWordChar c = false) :
      DeclaresField name (keyword ++ (gap ++ (name ++ rest)))
  /-- Nothing but white space stands between the name and its value. -/
  | typed {type gap rest : List Char} (isType : IsFieldType type) (isGap : IsGap gap)
      (value : ∀ c ∈ rest.takeWhile (· != '='), isSpacing c = true) :
      DeclaresField name (type ++ (gap ++ (name ++ rest)))
  | modified {modifier gap rest : List Char} (listed : String.ofList modifier ∈ fieldModifiers)
      (isGap : IsGap gap) (later : DeclaresField name rest) :
      DeclaresField name (modifier ++ (gap ++ rest))

/-! Words and the white space behind them. -/

/-- A single space separates words. -/
theorem isGap_space : IsGap [' '] :=
  ⟨by decide, by decide⟩

/-- White space is no part of a word. -/
theorem isIdentifierChar_of_isSpacing {c : Char} (spaced : isSpacing c = true) :
    isIdentifierChar c = false := by
  -- There are five such characters, and each is looked at.
  simp only [isSpacing, Bool.or_eq_true, decide_eq_true_eq] at spaced
  rcases spaced with (((is | is) | is) | is) | is <;> rw [is] <;> decide

/-- What separates words is white space in any other sense, too. -/
theorem isBlank_of_isSpacing {c : Char} (spaced : isSpacing c = true) : isBlank c = true := by
  -- There are five such characters, and each is looked at.
  simp only [isSpacing, Bool.or_eq_true, decide_eq_true_eq] at spaced
  rcases spaced with (((is | is) | is) | is) | is <;> rw [is] <;> decide

/-- The first word of a text ends where no character of a word comes. -/
theorem firstWord_append {c : Char} (stop : isIdentifierChar c = false) (front back : List Char) :
    firstWord (front ++ c :: back) = firstWord front := by
  induction front with
  | nil => simp [firstWord, stop]
  | cons d front ih =>
    -- The word is read up to the character that stops it, which may come within the front.
    simp only [firstWord, List.cons_append, List.takeWhile_cons] at ih ⊢
    split
    · rw [ih]
    · rfl

/-- The first word of a text ends in front of white space. -/
theorem firstWord_gap {gap : List Char} (isGap : IsGap gap) (front back : List Char) :
    firstWord (front ++ (gap ++ back)) = firstWord front := by
  -- The gap has a first character, and that is no part of a word.
  obtain ⟨c, gap, rfl⟩ := List.exists_cons_of_ne_nil isGap.filled
  exact firstWord_append (isIdentifierChar_of_isSpacing (isGap.spaced c (by simp)).1) front _

section Names

variable {name gap rest : List Char}

/-! Properties. -/

/-- A property is known by the name behind its keyword. -/
theorem fieldName?_property (named : IsName name) {keyword : List Char}
    (listed : keyword ∈ propertyKeywords) (isGap : IsGap gap)
    (stop : ∀ c ∈ rest.head?, isWordChar c = false) :
    fieldName? (keyword ++ (gap ++ (name ++ rest))) = some name := by
  have word : firstWord (keyword ++ (gap ++ (name ++ rest))) = firstWord keyword :=
    firstWord_gap isGap keyword _
  have stop : ∀ glyph ∈ (rest.map Glyph.plain).head?, isWordChar glyph.shown = false := by
    simpa [Glyph.plain, Glyph.shown] using stop
  have shape : (keyword ++ (gap ++ (name ++ rest))).map Glyph.plain = keyword.map Glyph.plain ++
      (gap.map Glyph.plain ++ (name.map Glyph.plain ++ rest.map Glyph.plain)) := by simp
  have declared := readDeclared?_eq named keyword isGap.filled
    (fun c member => by simp [isAsciiBlank, (isGap.spaced c member).1]) stop
  have property : propertyName? (keyword ++ (gap ++ (name ++ rest))) = some name := by
    rw [propertyName?, shape]
    simp only [propertyKeywords, List.mem_cons, List.not_mem_nil, or_false] at listed
    rcases listed with rfl | rfl
    · rw [declared]
      rfl
    · -- The one keyword is not mistaken for the other.
      have other : readDeclared? "val".toList ("var".toList.map Glyph.plain ++
          (gap.map Glyph.plain ++ (name.map Glyph.plain ++ rest.map Glyph.plain))) = none := rfl
      rw [other, declared]
      rfl
  -- The keyword is neither a modifier nor a word that no field begins with.
  have apart : ∀ keyword ∈ propertyKeywords, String.ofList (firstWord keyword) ∉ nonFieldWords ∧
      String.ofList (firstWord keyword) ∉ fieldModifiers := by decide
  obtain ⟨noWord, noModifier⟩ := apart keyword listed
  rw [fieldName?]
  simp [word, noWord, noModifier, property]

/-- A text that begins with another word than a property does declares none. -/
theorem propertyName?_none {text : List Char}
    (apart : firstWord text ≠ "val".toList ∧ firstWord text ≠ "var".toList) :
    propertyName? text = none := by
  have nothing {keyword : List Char} (word : ∀ c ∈ keyword, isIdentifierChar c = true)
      (other : firstWord text ≠ keyword) : readDeclared? keyword (text.map Glyph.plain) = none := by
    by_contra found
    obtain ⟨c, rest, white, shown⟩ :=
      shownText_of_readDeclared? (Option.isSome_iff_ne_none.mpr found)
    have stop : isIdentifierChar c = false := by
      simp only [isAsciiBlank, isSpacing, Bool.or_eq_true, decide_eq_true_eq] at white
      rcases white with ((((is | is) | is) | is) | is) | is <;> rw [is] <;> decide
    have seen : text = keyword ++ c :: rest := by
      simpa using shown
    -- The keyword would be the first word, since white space comes behind it.
    refine other ?_
    rw [seen, firstWord_append stop]
    exact List.takeWhile_eq_self_iff.mpr word
  rw [propertyName?, nothing (by decide) apart.1, nothing (by decide) apart.2]
  rfl

/-! Fields with a type in front. -/

/-- Neither a name nor white space ends a declarator. -/
theorem declarator_apart (named : IsName name) (isGap : IsGap gap) {type : List Char}
    (flat : ∀ c ∈ type, c ≠ '(' ∧ c ≠ '=' ∧ c ≠ ':') :
    ∀ c ∈ type ++ (gap ++ name), c ≠ '(' ∧ c ≠ '=' ∧ c ≠ ':' := by
  intro c member
  rcases List.mem_append.mp member with ofType | behind
  · exact flat c ofType
  -- Neither spacing nor the characters of a name are among the three.
  rcases List.mem_append.mp behind with ofGap | ofName
  · have spaced := (isGap.spaced c ofGap).1
    refine ⟨?_, ?_, ?_⟩ <;> rintro rfl <;> exact absurd spaced (by decide)
  · have word := named.parts c ofName
    refine ⟨?_, ?_, ?_⟩ <;> rintro rfl <;> exact absurd word (by decide)

/-- The name of a field is read behind its type, up to its value. -/
theorem typedName?_eq (named : IsName name) {type : List Char} (isType : IsFieldType type)
    (isGap : IsGap gap) (value : ∀ c ∈ rest.takeWhile (· != '='), isSpacing c = true) :
    typedName? (type ++ (gap ++ (name ++ rest))) = some name := by
  have apart := declarator_apart named isGap isType.flat
  generalize space : rest.takeWhile (· != '=') = white at value
  have declarator : (type ++ (gap ++ (name ++ rest))).takeWhile (· != '=') =
      type ++ (gap ++ name) ++ white := by
    have shape : type ++ (gap ++ (name ++ rest)) = type ++ (gap ++ name) ++ rest := by simp
    rw [shape, List.takeWhile_append_of_pos fun c member => by simpa using (apart c member).2.1,
      space]
  have without {c : Char} (other : ∀ d ∈ type ++ (gap ++ name), d ≠ c)
      (visible : isSpacing c = false) : (type ++ (gap ++ name) ++ white).contains c = false := by
    rw [Bool.eq_false_iff, ne_eq, List.contains_iff_mem, List.mem_append]
    rintro (member | member)
    · exact other c member rfl
    · exact absurd (value c member) (by simp [visible])
  have noParenthesis := without (fun c member => (apart c member).1) (by decide)
  have noColon := without (fun c member => (apart c member).2.2) (by decide)
  -- The white space behind the name is dropped, and what is left ends in the name.
  have trailing : trailingName? (type ++ (gap ++ name) ++ white) = some (type ++ gap, name) := by
    have ends : ∀ c ∈ (type ++ gap).getLast?, isWordChar c = false := by
      intro c last
      have inGap : c ∈ gap := List.mem_of_mem_getLast? (by simpa [isGap.filled] using last)
      exact isWordChar_of_isAsciiBlank (by simp [isAsciiBlank, (isGap.spaced c inGap).1])
    have kept : dropEndWhile isAsciiBlank (type ++ (gap ++ name) ++ white) =
        dropEndWhile isAsciiBlank (type ++ (gap ++ name)) := by
      have blank : ∀ c ∈ white.reverse, isAsciiBlank c = true := fun c member => by
        simp [isAsciiBlank, value c (List.mem_reverse.mp member)]
      rw [dropEndWhile, dropEndWhile, List.reverse_append, List.dropWhile_append_of_pos blank]
    rw [← named.trailingName?_eq ends, trailingName?, trailingName?, kept, List.append_assoc]
  have filled : (type ++ gap).all isBlank = false := by
    cases type with
    | nil => exact absurd isType.visible (by simp)
    | cons c type =>
      have visible := isType.visible
      simp_all
  simp only [typedName?, declarator, noParenthesis, noColon, trailing, filled, Bool.or_self,
    Bool.false_eq_true, if_false, Option.bind_eq_bind, Option.bind_some]

/-- A field with a type is known by the name behind it. -/
theorem fieldName?_typed (named : IsName name) {type : List Char} (isType : IsFieldType type)
    (isGap : IsGap gap) (value : ∀ c ∈ rest.takeWhile (· != '='), isSpacing c = true) :
    fieldName? (type ++ (gap ++ (name ++ rest))) = some name := by
  have word : firstWord (type ++ (gap ++ (name ++ rest))) = firstWord type :=
    firstWord_gap isGap type _
  have unreserved := isType.unreserved
  simp only [reservedWords, List.mem_append, not_or] at unreserved
  obtain ⟨⟨noWord, noModifier⟩, noKeyword⟩ := unreserved
  -- Only `val` and `var` make a property, and a type is called neither.
  have noProperty : propertyName? (type ++ (gap ++ (name ++ rest))) = none := by
    refine propertyName?_none ⟨?_, ?_⟩ <;> rw [word] <;> rintro same <;> rw [same] at noKeyword
    · exact noKeyword (by decide)
    · exact noKeyword (by decide)
  rw [fieldName?]
  simp [word, noWord, noModifier, noProperty, typedName?_eq named isType isGap value]

/-! Modifiers. -/

/-- Modifiers in front of a field are passed over. -/
theorem fieldName?_modifier {modifier : List Char}
    (listed : String.ofList modifier ∈ fieldModifiers) (isGap : IsGap gap) (back : List Char) :
    fieldName? (modifier ++ (gap ++ back)) = fieldName? (trimStart back) := by
  -- Each of the listed words is a word to its end, and none that rules a field out.
  have words : ∀ word ∈ fieldModifiers, firstWord word.toList = word.toList ∧ word.toList ≠ [] ∧
      nonFieldWords.contains word = false := by decide
  obtain ⟨whole, filled, field⟩ := words _ listed
  rw [String.toList_ofList] at whole filled
  have word : firstWord (modifier ++ (gap ++ back)) = modifier :=
    (firstWord_gap isGap modifier back).trans whole
  have spaced : trimStart (gap ++ back) = trimStart back :=
    List.dropWhile_append_of_pos fun c member => isBlank_of_isSpacing (isGap.spaced c member).1
  have modifies : fieldModifiers.contains (String.ofList modifier) = true ∧ modifier ≠ [] :=
    ⟨List.contains_iff_mem.mpr listed, filled⟩
  rw [fieldName?]
  simp only [word]
  rw [field, if_neg Bool.false_ne_true, if_pos modifies, List.drop_left, spaced]

/-! Any declaration. -/

/-- A declaration begins with neither white space nor arguments. -/
theorem DeclaresField.visible {text : List Char} (declares : DeclaresField name text) :
    (text.head?.any fun c => !isBlank c && c != '(') = true := by
  have begins {word : List Char} (visible : (word.head?.any fun c => !isBlank c && c != '(') = true)
      (back : List Char) : ((word ++ back).head?.any fun c => !isBlank c && c != '(') = true := by
    cases word with
    | nil => exact absurd visible (by simp)
    | cons c word => exact visible
  -- It begins with a keyword, a type or a modifier, and each of these shows.
  cases declares with
  | property listed =>
    have keywords : ∀ keyword ∈ propertyKeywords,
        (keyword.head?.any fun c => !isBlank c && c != '(') = true := by decide
    exact begins (keywords _ listed) _
  | @typed type gap rest isType =>
    refine begins ?_ _
    have visible := isType.visible
    cases type with
    | nil => exact absurd visible (by simp)
    | cons c type =>
      have noArguments := (isType.flat c (by simp)).1
      simpa [noArguments] using visible
  | modified listed =>
    have modifiers : ∀ word ∈ fieldModifiers,
        (word.toList.head?.any fun c => !isBlank c && c != '(') = true := by decide
    exact begins (by simpa using modifiers _ listed) _

/-- There is no white space in front of a declaration. -/
theorem DeclaresField.trimStart_eq {text : List Char} (declares : DeclaresField name text) :
    trimStart text = text :=
  -- Its first character is visible.
  dropWhile_eq fun c first => by
    have visible := declares.visible
    simp only [Option.mem_def.mp first, Option.any_some, Bool.and_eq_true] at visible
    simpa using visible.1

/-- A declaration by itself is known by its name. -/
theorem DeclaresField.fieldName?_eq (named : IsName name) {text : List Char}
    (declares : DeclaresField name text) : fieldName? text = some name := by
  -- The three ways to declare a field each have their lemma, and a modifier is read over.
  induction declares with
  | property listed isGap stop => exact fieldName?_property named listed isGap stop
  | typed isType isGap value => exact fieldName?_typed named isType isGap value
  | modified listed isGap later ih =>
    rw [fieldName?_modifier listed isGap, later.trimStart_eq, ih]

/-- A declaration declares its field without the white space behind it, too. -/
theorem DeclaresField.trimEnd (named : IsName name) {text : List Char}
    (declares : DeclaresField name text) : DeclaresField name (dropEndWhile isBlank text) := by
  -- The last character of the name is kept, and with it all that stands in front.
  have dropped (front rest : List Char) : dropEndWhile isBlank (front ++ (name ++ rest)) =
      front ++ (name ++ dropEndWhile isBlank rest) := by
    rcases List.eq_nil_or_concat name with rfl | ⟨start, c, rfl⟩
    · exact absurd rfl named.ne_nil
    · have kept := isBlank_of_isWordChar (named.parts c (by simp))
      simpa using dropEndWhile_stop kept (front ++ start) rest
  have shorter := dropEndWhile_isPrefix isBlank
  induction declares with
  | @property keyword gap rest listed isGap stop =>
    rw [← List.append_assoc, dropped, List.append_assoc]
    refine .property listed isGap fun c first => stop c ?_
    obtain ⟨left, whole⟩ := shorter rest
    rw [← whole, List.head?_append, Option.mem_def.mp first]
    rfl
  | @typed type gap rest isType isGap value =>
    rw [← List.append_assoc, dropped, List.append_assoc]
    refine .typed isType isGap fun c member => value c ?_
    obtain ⟨left, whole⟩ := shorter rest
    rw [← whole, List.takeWhile_append]
    split
    · exact List.mem_append_left _ ((List.takeWhile_sublist _).subset member)
    · exact member
  | @modified modifier gap rest listed isGap later ih =>
    have visible := later.visible
    cases rest with
    | nil => exact absurd visible (by simp)
    | cons c rest =>
      have kept : isBlank c = false := by
        simp only [List.head?_cons, Option.any_some, Bool.and_eq_true] at visible
        simpa using visible.1
      have alone := dropEndWhile_stop kept [] rest
      rw [← List.append_assoc, dropEndWhile_stop kept, List.append_assoc]
      rw [List.nil_append] at alone
      rw [alone, List.nil_append] at ih
      exact .modified listed isGap ih

/-- What a member declares is read from it between any white space. -/
theorem DeclaresField.fieldName?_trim (named : IsName name) {text : List Char}
    (declares : DeclaresField name text) : fieldName? (trim text) = some name := by
  -- White space is dropped in front and behind, and the rest still declares the field.
  rw [trim, declares.trimStart_eq]
  exact (declares.trimEnd named).fieldName?_eq named

end Names

/-! Where a name stands. -/

/-- A name behind a keyword stands in the code. -/
theorem isInfix_of_readDeclared? {keyword name : List Char} {code after : List Glyph}
    (found : readDeclared? keyword code = some (name, after)) : name <:+: Glyph.shownText code := by
  simp only [readDeclared?, Option.bind_eq_bind, Option.bind_eq_some_iff] at found
  obtain ⟨rest, behind, found⟩ := found
  split at found
  · simp only [readName?] at found
    split at found
    · obtain ⟨rfl, -⟩ := Prod.mk.inj (Option.some.inj found)
      -- The white space between the keyword and the name is left out.
      have spaced : Glyph.shownText (rest.dropWhile fun glyph => isAsciiBlank glyph.shown) <:+
          Glyph.shownText rest := (List.dropWhile_suffix _).map _
      rw [shownText_of_afterText? behind]
      exact (List.takeWhile_prefix _).isInfix.trans
        (spaced.trans (List.suffix_append keyword _)).isInfix
    · cases found
  · cases found

/-- A name at the end of a text stands in it. -/
theorem isInfix_of_trailingName? {text front name : List Char}
    (found : trailingName? text = some (front, name)) : name <:+: text := by
  simp only [trailingName?] at found
  split at found
  · cases found
  · obtain ⟨-, rfl⟩ := Prod.mk.inj (Option.some.inj found)
    -- The name ends the text that is left without the spacing behind it.
    have word (kept : List Char) : (kept.reverse.takeWhile isWordChar).reverse <:+ kept := by
      rw [← List.reverse_prefix, List.reverse_reverse]
      exact List.takeWhile_prefix _
    exact ((List.dropWhile_suffix _).trans (word _)).isInfix.trans
      (dropEndWhile_isPrefix _ text).isInfix

/-- A declaration that is read as a field has the name of that in it. -/
theorem isInfix_of_fieldName? {text name : List Char} (found : fieldName? text = some name) :
    name <:+: text := by
  rw [fieldName?] at found
  simp only at found
  split at found
  · cases found
  split at found
  · rename_i modifier
    have positive := List.length_pos_iff.mpr modifier.2
    have shorter := dropWhile_length isBlank (text.drop (firstWord text).length)
    have within : (firstWord text).length ≤ text.length :=
      List.Sublist.length_le (List.takeWhile_sublist _)
    -- The text behind the modifier is shorter, as the modifier is not empty.
    have : (trimStart (text.drop (firstWord text).length)).length < text.length := by
      rw [List.length_drop] at shorter
      unfold trimStart
      omega
    exact (isInfix_of_fieldName? found).trans
      ((List.dropWhile_suffix _).trans (List.drop_suffix _ text)).isInfix
  · have plain : Glyph.shownText (text.map Glyph.plain) = text := Glyph.shownText_plain text
    rcases Option.or_eq_some_iff.mp found with property | ⟨-, typed⟩
    · simp only [propertyName?, Option.map_eq_some_iff] at property
      obtain ⟨⟨_, after⟩, declared, rfl⟩ := property
      rcases Option.or_eq_some_iff.mp declared with read | ⟨-, read⟩
      · exact plain ▸ isInfix_of_readDeclared? read
      · exact plain ▸ isInfix_of_readDeclared? read
    · simp only [typedName?] at typed
      split at typed
      · cases typed
      simp only [Option.bind_eq_bind, Option.bind_eq_some_iff] at typed
      obtain ⟨⟨front, last⟩, trailing, typed⟩ := typed
      split at typed
      · cases typed
      · obtain rfl := Option.some.inj typed
        exact (isInfix_of_trailingName? trailing).trans (List.takeWhile_prefix _).isInfix
termination_by text.length

end Entity

end IndexAudit
