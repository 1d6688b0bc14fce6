import IndexAudit.Code.Declaration
import IndexAudit.Code.Segment
import IndexAudit.Mapping

/-!
The mapping that an entity class declares.

A field's column is the one that `@Column` names, else the one that `@JoinColumn` names.
Else a field of a collection relation, or one that is not stored, has no column, and any other
field has the snake-case one.
-/

namespace IndexAudit

namespace Entity

/-- Annotations whose fields are no columns of the entity's own table. -/
def unmappedAnnotations : List String :=
  ["OneToMany", "ManyToMany", "JoinTable", "Transient", "ElementCollection"]

/-- Modifiers that may stand in front of a field. -/
def fieldModifiers : List String :=
  ["private", "protected", "public", "internal", "final", "override", "open", "lateinit",
    "volatile", "abstract"]

/-- Words that a field never begins with, or that take it out of the table. -/
def nonFieldWords : List String :=
  ["static", "transient", "const", "fun", "class", "interface", "object", "companion", "init",
    "constructor", "enum", "return", "import", "package"]

/-- Words that may stand between a class name and the parameters of its constructor. -/
def constructorWords : List String :=
  ["constructor", "private", "protected", "internal", "public"]

/-- The name that an annotation gives, if it gives one that is not empty. -/
def declaredName? (note : AnnotationUse) : Option (List Char) := do
  let name ← note.stringArgument "name".toList
  let clean := cleanNameChars name
  if clean.isEmpty then none else some clean

/-- The table that the last `@Table` in front of a class names. -/
def tableName? (before code : List Glyph) : Option (List Char) := do
  let index ← AnnotationUse.lastMarkerIndex? "Table".toList before
  let (note, _) ← AnnotationUse.read? (code.drop index)
  declaredName? note

/-- The name that the first of a field's annotations of one kind with a name gives. -/
def explicitColumn? (kind : String) (notes : List AnnotationUse) : Option (List Char) := do
  let named ← notes.findSome? fun note =>
    if note.name = kind.toList then note.stringArgument "name".toList else none
  let clean := cleanNameChars named
  if clean.isEmpty then none else some clean

/-- The column behind a field with given annotations, if it has one. -/
def column? (field : List Char) (notes : List AnnotationUse) : Option String :=
  match (explicitColumn? "Column" notes).or (explicitColumn? "JoinColumn" notes) with
  | some column => some (String.ofList column)
  | none =>
    -- Only a field that is given no column can be kept out of the table by an annotation.
    if notes.any fun note => unmappedAnnotations.contains (String.ofList note.name) then none
    else some (snakeCase (String.ofList field))

/-- The word at the start of a text. -/
def firstWord (text : List Char) : List Char :=
  text.takeWhile isIdentifierChar

/-- The name behind `val` or `var` at the start of a text. -/
def propertyName? (text : List Char) : Option (List Char) :=
  let code := text.map Glyph.plain
  ((readDeclared? "val".toList code).or (readDeclared? "var".toList code)).map (·.1)

/-- The name of a field declared by its type and name, with an initializer or without. -/
def typedName? (text : List Char) : Option (List Char) := do
  let declarator := text.takeWhile (· != '=')
  -- A parenthesis makes a method of it, and a colon means that a property lacks its keyword.
  if declarator.contains '(' || declarator.contains ':' then none
  else
    let (type, name) ← trailingName? declarator
    if type.all isBlank then none else some name

/-- The name of the field that a declaration without annotations declares, if it declares one. -/
def fieldName? (text : List Char) : Option (List Char) :=
  let word := firstWord text
  if nonFieldWords.contains (String.ofList word) then none
  else if fieldModifiers.contains (String.ofList word) ∧ word ≠ [] then
    have : word ≠ [] → (trimStart (text.drop word.length)).length < text.length := fun filled => by
      have shorter := dropWhile_length isBlank (text.drop word.length)
      have positive := List.length_pos_iff.2 filled
      have within : word.length ≤ text.length :=
        List.Sublist.length_le (List.takeWhile_sublist _)
      rw [List.length_drop] at shorter
      unfold trimStart
      omega
    fieldName? (trimStart (text.drop word.length))
  else (propertyName? text).or (typedName? text)
termination_by text.length
decreasing_by
  rename_i modifier
  exact this modifier.2

/-- The mapped fields after one more member, which earlier annotations may belong to. -/
def addMember (inherited : List AnnotationUse) (code : List Glyph)
    (fields : List (String × String)) : List (String × String) :=
  let (own, rest) := AnnotationUse.leading code
  match fieldName? (trim (Glyph.shownText rest)) with
  | none => fields
  | some field =>
    match column? field (inherited ++ own) with
    | none => fields
    | some column => putEntry (String.ofList field) column fields

/--
The mapped fields after the members of a class body.

Annotations on lines of their own wait for the next member; one that owns a block takes them along.
-/
def addMembers (pending : List AnnotationUse) (fields : List (String × String)) :
    List Segment → List (String × String)
  | [] => fields
  | segment :: rest =>
    if segment.opensBlock then addMembers [] fields rest
    else if Segment.isBlankCode segment.code then addMembers pending fields rest
    else
      let (own, declaration) := AnnotationUse.leading segment.code
      if Segment.isBlankCode declaration then addMembers (pending ++ own) fields rest
      else addMembers [] (addMember pending segment.code fields) rest

/-- The parameters of a primary constructor behind a class name, and what follows them. -/
def constructorParameters? (code : List Glyph) : Option (List Glyph × List Glyph) :=
  match start : AnnotationUse.skipSpacing code with
  | [] => none
  | glyph :: rest =>
    have within : (glyph :: rest).length ≤ code.length :=
      dropWhile_tail_length start
    if glyph.shown = '<' then
      -- Type parameters end at the first closing angle.
      match close : rest.dropWhile (·.shown != '>') with
      | [] => none
      | _ :: after =>
        have : after.length < code.length :=
          Nat.lt_trans (dropWhile_tail_length close) within
        constructorParameters? after
    else if glyph.shown = '(' then
      (Glyph.closeIndex (glyph :: rest)).map fun close =>
        (rest.take (close - 1), rest.drop close)
    -- Annotations of the constructor are passed over, as the words in front of it are.
    else if glyph.shown = '@' then
      match found : AnnotationUse.read? (glyph :: rest) with
      | none => none
      | some (_, after) =>
        have : after.length < code.length :=
          Nat.lt_of_lt_of_le (AnnotationUse.read?_length found) within
        constructorParameters? after
    else
      match firstWord (Glyph.shownText (glyph :: rest)) with
      | [] => none
      | c :: word =>
        if constructorWords.contains (String.ofList (c :: word)) then
          have : rest.length - word.length < code.length :=
            Nat.lt_of_le_of_lt (Nat.sub_le _ _) within
          constructorParameters? (rest.drop word.length)
        else none
termination_by code.length

/-- The position of the first curly bracket outside round and square ones. -/
def bodyIndex? (depth : Nat) : List Glyph → Option Nat
  | [] => none
  | glyph :: rest =>
    if depth = 0 ∧ glyph.shown = '{' then some 0
    else (bodyIndex? (Segment.depthAfter depth glyph.shown) rest).map (· + 1)

/-- The body of a class, which no other class declaration may come in front of. -/
def classBody? (code : List Glyph) : Option (List Glyph) := do
  let index ← bodyIndex? 0 code
  -- A class without a body would otherwise get that of the class behind it.
  if (Declaration.find ["class".toList] none (code.take index)).isSome then none
  else
    let close ← Glyph.closeIndex (code.drop index)
    some ((code.drop (index + 1)).take (close - 1))

/-- The mapping that code declares: its first entity class, if that names a table. -/
def mapping? (code : List Glyph) : Option TableMapping := do
  let (_, behind) ← AnnotationUse.findMarker "Entity".toList code
  let marked := code.take (code.length - behind.length)
  let previous := marked.getLast?.map (·.shown)
  let declaration ← Declaration.find ["class".toList] previous behind
  -- `@Table` may stand on either side of the marker, but not behind the keyword.
  let table ← tableName? (marked ++ declaration.before) code
  let parameters := constructorParameters? declaration.after
  let fromConstructor := match parameters with
    | some (inside, _) =>
      (Glyph.splitTop ',' true inside).foldl (fun fields part => addMember [] part fields) []
    | none => []
  let afterHeader := match parameters with
    | some (_, after) => after
    | none => declaration.after
  -- A field of the body takes the place of a parameter of the same name.
  let fields := match classBody? afterHeader with
    | some body => addMembers [] fromConstructor (Segment.collect (fun _ => false) 1 0 [] body)
    | none => fromConstructor
  some (.ofDeclared (String.ofList declaration.name) (String.ofList table) fields)

/-- The mapping that a source text declares, if it declares an entity with a table. -/
def mappingOfText? (text : List Char) : Option TableMapping :=
  mapping? (Glyph.ofCode (SourceLine.codeText (SourceLine.ofText text)))

end Entity

end IndexAudit
