import IndexAudit.Baseline.Comparison
import IndexAudit.Decimal.Binary64
import IndexAudit.Files.Tree
import IndexAudit.Json.Document
import IndexAudit.Json.Indented
import IndexAudit.Timestamp

/-! The file that keeps the findings that are accepted. -/

namespace IndexAudit

/-- What keeps a baseline file from being read or written. -/
inductive BaselineError where
  /-- The file or its directory cannot be read or written. -/
  | inaccessible
  /-- The file does not have the form of a baseline. -/
  | malformed
  /-- The file was written by a later version. -/
  | unsupported (path : String) (version : Nat)
deriving Repr, DecidableEq

/-- The text of an error, where it does not depend on what the system says. -/
def BaselineError.message? : BaselineError → Option String
  | .unsupported path version =>
    some ("invalid baseline file " ++ path ++ ": unsupported version " ++ toString version)
  | _ => none

/-- What a baseline file holds, apart from when it was written. -/
structure BaselineFile where
  version : Nat
  issues : List Issue
deriving Repr, DecidableEq

namespace JsonValue

/-- The text of a string. -/
def text? : JsonValue → Option String
  | .string text => text
  | _ => none

/-- The only member of a name. -/
def onlyMember? (members : List (Option String × JsonValue)) (name : String) :
    Option JsonValue :=
  match members.filter (·.1 == some name) with
  | [member] => some member.2
  | _ => none

/--
The values of a record's fields: the members of those names, or the items of an array of them.

Each field occurs once; members of other names do not count, as long as they have one.
-/
def fields? (names : List String) : JsonValue → Option (List JsonValue)
  | .array items => if items.length = names.length then some items else none
  | .object members =>
    if members.all (·.1.isSome) then names.mapM (onlyMember? members) else none
  | _ => none

end JsonValue

/-- An accepted finding as a document. -/
def Issue.document (issue : Issue) : JsonValue :=
  .ofMembers [("service", .ofString issue.service), ("table", .ofString issue.table),
    ("column", .ofString issue.column)]

namespace Baseline

/-- The version that files are written in. -/
def version : Nat := 1

/-- The greatest version that can be told. -/
def greatestVersion : Nat := powerOfTwo 32 - 1

/-- The name of a baseline file unless another one is given. -/
def defaultName : String := "idxlint-baseline.json"

/-- The version that a value gives. -/
def versionOf? : JsonValue → Option Nat
  | .number number => do
    let version ← number.integer?
    if 0 ≤ version ∧ version ≤ greatestVersion then some version.toNat else none
  | _ => none

/-- The issue that a value gives. -/
def issueOf? (value : JsonValue) : Option Issue := do
  match ← value.fields? ["service", "table", "column"] with
  | [service, table, column] => some ⟨← service.text?, ← table.text?, ← column.text?⟩
  | _ => none

/-- The issues that a value gives. -/
def issuesOf? : JsonValue → Option (List Issue)
  | .array items => items.mapM issueOf?
  | _ => none

/-- The baseline that a document gives. -/
def ofDocument? (document : JsonValue) : Option BaselineFile := do
  match ← document.fields? ["version", "generatedAt", "issues"] with
  | [version, generatedAt, issues] =>
    if Timestamp.isTime (← generatedAt.text?) then
      some ⟨← versionOf? version, ← issuesOf? issues⟩
    else none
  | _ => none

/-- The accepted issues in the text of a file, the first of each key, in order. -/
def ofText (path : String) (text : List Char) : Except BaselineError (List Issue) :=
  match (JsonValue.ofText? text).bind ofDocument? with
  | none => .error .malformed
  | some file =>
    if Baseline.version < file.version then .error (.unsupported path file.version)
    else .ok (distinct file.issues)

/-- The accepted issues in a file; one that does not exist accepts nothing. -/
def load (tree : FileTree) (path : String) : Except BaselineError (List Issue) :=
  if !tree.existsAt path then .ok []
  else
    match (tree.read? path).bind Content.text? with
    | none => .error .inaccessible
    | some text => ofText path text

/-- The text of a file that accepts issues and is written at a time. -/
def text (time : String) (issues : List Issue) : String :=
  let document := JsonValue.ofMembers [("version", .ofNat version), ("generatedAt", .ofString time),
    ("issues", .array ((distinct issues).map Issue.document))]
  document.indented ++ "\n"

/--
The tree after issues are written to a file as accepted, and whether that went well.

The directories around the file are made first, and stay even if the file cannot be written.
-/
def persist (tree : FileTree) (path time : String) (issues : List Issue) :
    FileTree × Except BaselineError Unit :=
  let (around, made) :=
    match Path.parent? path with
    | none => (tree, true)
    | some parent => if parent.isEmpty then (tree, true) else tree.makeDirectoryPath parent
  -- A file where a directory is wanted keeps the rest from being made.
  if !made then (around, .error .inaccessible)
  else
    match around.write? path (.text (text time issues).toList) with
    | none => (around, .error .inaccessible)
    | some written => (written, .ok ())

end Baseline

end IndexAudit
