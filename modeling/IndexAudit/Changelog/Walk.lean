import IndexAudit.Changelog.Document
import IndexAudit.Files.Tree

/-!
The files that a changelog reaches through its references, each taken once.

References are followed depth first. A file that is missing, malformed or no changelog declares
nothing and refers to nothing.
-/

namespace IndexAudit

/-- A changelog file that is read: the path it is first reached by, and what it declares. -/
structure ChangelogFile where
  path : String
  place : Place
  scanned : Scanned
deriving Repr, DecidableEq

namespace Changelog

/-- The names of the changelog that a directory starts from, the preferred one first. -/
def masterNames : List String :=
  ["db.changelog-master.yaml", "db.changelog-master.yml", "db.changelog-master.xml"]

/-- The endings of the files that a reference to a whole directory takes. -/
def extensions : List String :=
  ["yaml", "yml", "json", "xml", "sql"]

/-- The changelog that a path stands for: the file itself, or the one its directory starts from. -/
def root? (tree : FileTree) (path : String) : Option String :=
  if tree.isFile path then some path
  else if tree.isDirectory path then (masterNames.map (Path.join path)).find? tree.isFile
  else none

/-- The paths that a reference may mean, in the order in which they are tried. -/
def candidates (base source : String) (path : String) (isRelative : Bool) : List String :=
  let besides := (Path.parent? source).getD "."
  if isRelative then [Path.join besides path]
  else (Path.ancestors base).map (Path.join · path) ++ [Path.join besides path]

/-- A reference's path without the white space and the class path mark in front of it. -/
def referencePath (path : String) : List Char :=
  let trimmed := trim path.toList
  (afterStart? "classpath:".toList trimmed).getD trimmed

/--
The path that a reference in a changelog leads to, if something wanted is there.

An absolute path stands for itself where that exists; else a path starts at the directory of the
first changelog or one around it, or at that of the changelog it stands in.
-/
def resolve? (base source path : String) (isRelative : Bool) (wanted : String → Bool) :
    Option String :=
  let written := referencePath path
  let literal := String.ofList written
  if Path.isAbsolute literal && wanted literal then some literal
  else
    let below := String.ofList (written.dropWhile (· = '/'))
    (candidates base source below isRelative).find? wanted

/-- The files that a reference in a changelog leads to. -/
def targets (tree : FileTree) (base source : String) (reference : Reference) : List String :=
  match reference.kind with
  | .include | .sqlFile =>
    (resolve? base source reference.path reference.isRelative tree.isFile).toList
  | .includeAll =>
    match resolve? base source reference.path reference.isRelative tree.isDirectory with
    | none => []
    | some directory => tree.findFiles directory extensions

/-- What a file declares; one that is malformed or no changelog declares nothing. -/
def scanFile (path : String) (content : Content) : Scanned :=
  (scan? path content.lossyText).getD ⟨[], []⟩

/--
The changelogs that pending paths lead to, of those at places that are not read yet.

What a file refers to comes before what was pending behind it.
-/
def walk (tree : FileTree) (base : String) (unread : List Place) (pending : List String) :
    List ChangelogFile :=
  match pending with
  | [] => []
  | path :: rest =>
    match tree.place? path with
    | none => walk tree base unread rest
    | some place =>
      match tree.content? place with
      | none => walk tree base unread rest
      | some content =>
        -- A file is known by its place, whatever path leads to it.
        if found : place ∈ unread then
          let scanned := scanFile path content
          let more := scanned.references.flatMap (targets tree base path)
          have : (unread.erase place).length < unread.length := by
            have positive := List.length_pos_of_mem found
            rw [List.length_erase_of_mem found]
            omega
          ⟨path, place, scanned⟩ :: walk tree base (unread.erase place) (more ++ rest)
        else walk tree base unread rest
termination_by (unread.length, pending.length)

/-- The changelogs that are read for a path, in order. -/
def files (tree : FileTree) (path : String) : List ChangelogFile :=
  match root? tree path with
  | none => []
  | some root =>
    -- Every file of the tree may still be read, which bounds the walk.
    walk tree ((Path.parent? root).getD ".") (tree.files.map (·.1)) [root]

/-- The columns that the changelogs read for a path index. -/
def indexedColumns (tree : FileTree) (path : String) : List IndexedColumn :=
  (files tree path).flatMap (·.scanned.columns)

end Changelog

end IndexAudit
