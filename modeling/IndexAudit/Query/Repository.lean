import IndexAudit.Code.Declaration
import IndexAudit.Code.Segment
import IndexAudit.Query.Column
import IndexAudit.Query.Derived
import IndexAudit.Query.Native
import IndexAudit.Query.Suppression

/-!
The columns that the methods of a repository refer to.

A repository extends a base type whose name ends in `Repository`, and the first argument of that
type is its entity.
A method is a native query, a query in the entity language, or else one that its name spells out.
-/

namespace IndexAudit

/-- A member at the top level of a repository's body. -/
structure Member where
  /-- The name of a method; other members have none. -/
  name : Option (List Char)
  line : Nat
  annotations : List AnnotationUse
deriving Repr, DecidableEq

namespace Member

/-- Modifiers that may stand in front of a method. -/
def modifiers : List String :=
  ["public", "protected", "private", "internal", "abstract", "default", "override", "open",
    "final", "suspend", "static", "synchronized"]

/-- Words that begin a member which is no method, or the parameters of one. -/
def nonMethodWords : List String :=
  ["val", "var", "class", "interface", "object", "companion"]

/-- Words that begin a member which does not run on behind a line break. -/
def closedWords : List String :=
  ["val", "var", "fun", "class", "interface", "object", "companion", "enum"]

/-- Whether a member cut at a line break is only the type in front of a method's name. -/
def runsOn (text : List Char) : Bool :=
  let kept := trim text
  if kept.isEmpty || kept.any fun c => c = '(' || c = ':' || c = '=' || c = ';' then false
  else !((words kept).head?.any fun word => closedWords.contains (String.ofList word))

/-- The text in front of the name of a method that a declaration declares, and the name. -/
def methodName? (text : List Char) : Option (List Char × List Char) := do
  let head := text.takeWhile (· != '(')
  -- Without a parenthesis there is no method, and behind an equals sign it belongs to a value.
  if head.length = text.length || head.contains '=' then none
  else
    let first ← ((words head).dropWhile fun word => modifiers.contains (String.ofList word)).head?
    if nonMethodWords.contains (String.ofList first) then none
    else
      let (before, name) ← trailingName? head
      if before.all isBlank || (modifiers.contains (String.ofList name)) ||
          String.ofList name == "fun" then none
      else some (before, name)

/--
The members that the segments of a body make up.

Annotations on lines of their own wait for the next member.
-/
def ofSegments (pending : List AnnotationUse) : List Segment → List Member
  | [] => []
  | segment :: rest =>
    let (own, declaration) := AnnotationUse.leading segment.code
    let text := Glyph.shownText declaration
    if Segment.isBlankCode declaration then
      ofSegments (if segment.opensBlock then [] else pending ++ own) rest
    else
      -- The line on which the declaration starts, behind its annotations.
      let front := segment.line + Segment.lineBreaks segment.code - Segment.lineBreaks declaration
      match methodName? text with
      | some (before, name) =>
        ⟨some name, front + before.count '\n', pending ++ own⟩ :: ofSegments [] rest
      | none =>
        ⟨none, front + (text.takeWhile isBlank).count '\n', []⟩ :: ofSegments [] rest

end Member

namespace Repository

/-- The simple name of the entity that the header of a repository names, if there is one. -/
def entityName? (afterWord : Bool) : List Char → Option String
  | [] => none
  | c :: rest =>
    let word := (c :: rest).takeWhile isWordChar
    let behind := ((c :: rest).drop word.length).dropWhile isAsciiBlank
    -- A supertype counts from its first character on, never from within a word.
    let named := match behind with
      | '<' :: inside =>
        let name := inside.dropWhile isAsciiBlank
        if name.head?.any isNameStart && "Repository".toList.isSuffixOf word && !afterWord then
          some (simpleName (name.takeWhile fun d => isWordChar d || d = '.'))
        else none
      | _ => none
    match named with
    | some name => some (String.ofList name)
    | none => entityName? (isWordChar c) rest

/-- The columns that a derived query refers to; a name that is none refers to no column. -/
def derivedColumns (mapping : TableMapping) (method : List Char) : List ColumnReference :=
  match DerivedQuery.ofMethodName (fun field => (mapping.column? field).isSome) method with
  | .ok (some query) => query.properties.map fun field => ⟨mapping.tableName, mapping.resolve field⟩
  | _ => []

/-- The columns that a method refers to, in order, and the language it names them in. -/
def methodColumns (mappings : Mappings) (mapping : TableMapping) (method : List Char)
    (notes : List AnnotationUse) : QueryType × List ColumnReference :=
  let native := "NativeQuery".toList
  match notes.find? fun note => note.name == "Query".toList || note.name == native with
  | none => (.derived, derivedColumns mapping method)
  | some query =>
    match query.value with
    -- A query whose text is not known has no columns, whatever the name of the method says.
    | none => (.jpql, [])
    | some text =>
      if query.name == native || query.flag "nativeQuery".toList then
        (.native, Native.columns mapping.tableName (String.ofList text))
      else (.jpql, Jpql.columns mappings (String.ofList text))

/-- The identity of a column, for which letter case does not count. -/
def columnKey (reference : ColumnReference) : String × String :=
  (lower reference.table, lower reference.column)

/-- The columns of one method that no suppression covers, each once. -/
def keptColumns (suppression : Option Suppression) (seen : List (String × String)) :
    List ColumnReference → List ColumnReference
  | [] => []
  | first :: rest =>
    if suppression.any (·.covers first.column) || seen.contains (columnKey first) then
      keptColumns suppression seen rest
    else first :: keptColumns suppression (columnKey first :: seen) rest

/-- The query columns of the members of a repository, in order. -/
def memberColumns (file : String) (repository : List Char) (mappings : Mappings)
    (mapping : TableMapping) (pending : List Suppression) : List Member → List QueryColumn
  | [] => []
  | member :: rest =>
    -- A suppression is used up by the member behind it, even one that is no method.
    let (suppression, left) := Suppression.take pending member.line
    let here := match member.name with
      | none => []
      | some name =>
        let (queryType, references) := methodColumns mappings mapping name member.annotations
        (keptColumns suppression [] references).map fun reference =>
          { table := reference.table
            column := reference.column
            source := String.ofList (repository ++ '.' :: name)
            file := file
            line := member.line
            queryType := queryType }
    here ++ memberColumns file repository mappings mapping left rest

/-- The members of a repository whose body, entered at a line, code begins with. -/
def members (line : Nat) (body : List Glyph) : List Member :=
  Member.ofSegments [] (Segment.collect Member.runsOn line 0 [] body)

/-- The query columns of the first class or interface of a source text, if it is a repository. -/
def columns (file : String) (mappings : Mappings) (text : List Char) : List QueryColumn :=
  let lines := SourceLine.ofText text
  let code := Glyph.ofCode (SourceLine.codeText lines)
  let found : Option (List QueryColumn) := do
    let declaration ← Declaration.find ["interface".toList, "class".toList] none code
    let opening := declaration.after.dropWhile (·.shown != '{')
    if opening.isEmpty then none
    else
      let header := declaration.after.takeWhile (·.shown != '{')
      let entity ← entityName? false (Glyph.shownText header)
      let mapping ← mappings.find entity
      let inside := opening.drop 1
      -- A body that nothing closes runs to the end of the text.
      let body := match Glyph.closeIndex opening with
        | some close => inside.take (close - 1)
        | none => inside
      let line := SourceLine.numberAfter (Glyph.text (code.take (code.length - inside.length)))
      some (memberColumns file declaration.name mappings mapping (Suppression.ofLines lines)
        (members line body))
  found.getD []

end Repository

end IndexAudit
