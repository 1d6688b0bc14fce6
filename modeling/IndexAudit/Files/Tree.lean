import IndexAudit.Files.Path
import IndexAudit.Text.Utf8

/-! A file tree without links, and paths looked up in it. -/

namespace IndexAudit

/-- A place in a file tree: the names on the way to it from the top. -/
abbrev Place := List String

/-- What a file holds. -/
inductive Content where
  | text (characters : List Char)
  /-- Bytes that are no UTF-8 text. -/
  | raw (bytes : List UInt8)
deriving Repr, DecidableEq

/-- The files and directories there are, and the directory that relative paths start from. -/
structure FileTree where
  files : List (Place × Content)
  /-- The directories below the top. -/
  directories : List Place
  current : Place
deriving Repr, DecidableEq

namespace Content

/-- What a file of given bytes holds. -/
def ofBytes (bytes : List UInt8) : Content :=
  match Utf8.text? bytes with
  | some characters => .text characters
  | none => .raw bytes

/-- The text of a file that holds one. -/
def text? : Content → Option (List Char)
  | .text characters => some characters
  | .raw _ => none

/-- The text of a file, with replacement characters where it holds none. -/
def lossyText : Content → List Char
  | .text characters => characters
  | .raw bytes => Utf8.lossyText bytes

end Content

namespace FileTree

/-- The content of the file at a place. -/
def content? (tree : FileTree) (place : Place) : Option Content :=
  tree.files.lookup place

/-- Whether a directory is at a place. -/
def hasDirectory (tree : FileTree) (place : Place) : Bool :=
  place.isEmpty || tree.directories.contains place

/-- Whether a file is at a place. -/
def hasFile (tree : FileTree) (place : Place) : Bool :=
  (tree.content? place).isSome

/-- The place that a segment leads to from a directory. -/
def step (place : Place) (segment : List Char) : Place :=
  if Path.staysPut segment then place
  else if segment = ['.', '.'] then place.dropLast
  else place ++ [String.ofList segment]

/-- The place that segments lead to, each from a directory to something that exists. -/
def follow? (tree : FileTree) (place : Place) : List (List Char) → Option Place
  | [] => some place
  | segment :: rest =>
    let next := step place segment
    -- Even a segment that stays put leads on from a directory only.
    if tree.hasDirectory place && (tree.hasDirectory next || tree.hasFile next) then
      tree.follow? next rest
    else none

/-- The place where paths of a kind start. -/
def start (tree : FileTree) (path : String) : Place :=
  if Path.isAbsolute path then [] else tree.current

/-- The place that a path leads to, if something exists there. -/
def place? (tree : FileTree) (path : String) : Option Place :=
  if path.isEmpty then none else tree.follow? (tree.start path) (Path.segments path)

/-- Whether a path leads to something. -/
def existsAt (tree : FileTree) (path : String) : Bool :=
  (tree.place? path).isSome

/-- Whether a path leads to a file. -/
def isFile (tree : FileTree) (path : String) : Bool :=
  (tree.place? path).any tree.hasFile

/-- Whether a path leads to a directory. -/
def isDirectory (tree : FileTree) (path : String) : Bool :=
  (tree.place? path).any tree.hasDirectory

/-- The content of the file that a path leads to. -/
def read? (tree : FileTree) (path : String) : Option Content := do
  tree.content? (← tree.place? path)

/-- The names below a place that lead to another one. -/
def below? : Place → Place → Option (List String)
  | [], place => some place
  | _ :: _, [] => none
  | name :: outer, first :: place => if name = first then below? outer place else none

/-- Whether one sequence of names comes before another, or is the same. -/
def namesLe (a b : List String) : Bool :=
  !decide (b < a)

/-- The path of a place below the directory of a path. -/
def pathBelow (directory : String) (names : List String) : String :=
  names.foldl Path.join directory

/--
The paths of the files below a directory that have one of several extensions.

The entries of each directory come in the order of their names, and those of a directory in its
place, so the files come in the order of the sequences of names that lead to them.
-/
def findFiles (tree : FileTree) (directory : String) (extensions : List String) : List String :=
  match tree.place? directory with
  | none => []
  | some place =>
    if tree.hasDirectory place then
      let found := tree.files.filterMap fun file => below? place file.1
      ((found.mergeSort namesLe).map (pathBelow directory)).filter
        (Path.hasExtension · extensions)
    else []

/-- The names of the directories that lie directly in a place, in order. -/
def childDirectories (tree : FileTree) (place : Place) : List String :=
  let names := tree.directories.filterMap fun directory =>
    match below? place directory with
    | some [name] => some name
    | _ => none
  names.mergeSort fun a b => !decide (b < a)

/-- Adds directories for segments that lead nowhere yet; the answer says if all are directories. -/
def makeDirectories (tree : FileTree) (place : Place) : List (List Char) → FileTree × Bool
  | [] => (tree, true)
  | segment :: rest =>
    let next := step place segment
    if tree.hasFile next then (tree, false)
    else if tree.hasDirectory next then tree.makeDirectories next rest
    else { tree with directories := next :: tree.directories }.makeDirectories next rest

/-- Adds the directory of a path and those around it, as far as they do not exist. -/
def makeDirectoryPath (tree : FileTree) (path : String) : FileTree × Bool :=
  tree.makeDirectories (tree.start path) (Path.segments path)

/-- The place where a file of a path is or can be put. -/
def filePlace? (tree : FileTree) (path : String) : Option Place := do
  let last ← (Path.segments path).getLast?
  let outer ← tree.follow? (tree.start path) (Path.segments path).dropLast
  if Path.staysPut last || last = ['.', '.'] || !tree.hasDirectory outer then none
  else
    let place := outer ++ [String.ofList last]
    -- A file may be replaced, but not a directory.
    if tree.hasDirectory place then none else some place

/-- The tree after a file at a place is written. -/
def put (tree : FileTree) (place : Place) (content : Content) : FileTree :=
  { tree with files := (place, content) :: tree.files.filter (·.1 != place) }

/-- The tree after a file is written, if its directory exists and it is none itself. -/
def write? (tree : FileTree) (path : String) (content : Content) : Option FileTree := do
  tree.put (← tree.filePlace? path) content

/-- The tree after a file is written together with the directories around it, where possible. -/
def addFile (tree : FileTree) (path : String) (content : Content) : FileTree :=
  let around := (tree.makeDirectories (tree.start path) (Path.segments path).dropLast).1
  (around.write? path content).getD around

/-- The tree without what a path leads to. -/
def remove (tree : FileTree) (path : String) : FileTree :=
  match tree.place? path with
  | none => tree
  | some place =>
    { tree with
      files := tree.files.filter fun file => (below? place file.1).isNone
      directories := tree.directories.filter fun directory => (below? place directory).isNone }

end FileTree

end IndexAudit
