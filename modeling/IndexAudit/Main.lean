import IndexAudit.Command.Run
import IndexAudit.Report.Usage
import Std.Time.DateTime

/-!
The program: it reads the files that a command works on, runs the command, and writes the files that
this has changed.
-/

namespace IndexAudit

namespace Program

/-- The path of a place from the top. -/
def absolutePath (place : Place) : String :=
  "/" ++ "/".intercalate place

/-- A tree with the directories on the way to a place and at it, as far as they exist. -/
def withDirectories (tree : FileTree) (place : Place) : IO FileTree := do
  let around := (List.range place.length).map fun count => place.take (count + 1)
  around.foldlM (fun tree place => do
    if !tree.hasDirectory place && (← ((← IO.currentDir) / absolutePath place).isDir) then
      return { tree with directories := place :: tree.directories }
    else return tree) tree

/-- A tree with a file that is read from the disk, or without it if it cannot be read. -/
def withFile (tree : FileTree) (place : Place) : IO FileTree := do
  try
    let bytes ← IO.FS.readBinFile (absolutePath place)
    return { tree with files := (place, .ofBytes bytes.toList) :: tree.files }
  catch _ => return tree

/-- A tree with what lies below a directory, down to a depth; links are not followed. -/
def withContents : (depth : Nat) → FileTree → Place → IO FileTree
  | 0, tree, _ => return tree
  | depth + 1, tree, place => do
    let entries ← ((← IO.currentDir) / absolutePath place).readDir
    entries.foldlM (fun tree entry => do
      let inner := place ++ [entry.fileName]
      match (← entry.path.symlinkMetadata).type with
      | .dir => withContents depth { tree with directories := inner :: tree.directories } inner
      | .file => withFile tree inner
      | _ => return tree) tree

/-- How deep the directories of a project are read. -/
def depthLimit : Nat := 4096

/-- A tree, and the places that are read into it with all that is below them. -/
structure Snapshot where
  tree : FileTree
  places : List Place

/-- A tree with what is at a place on the disk, read anew. -/
def withPlace (tree : FileTree) (place : Place) : IO FileTree := do
  let rest ← withDirectories (tree.remove (absolutePath place)) place
  if rest.hasDirectory place then withContents depthLimit rest place else withFile rest place

/-- A snapshot with what a path leads to. -/
def Snapshot.withPath (snapshot : Snapshot) (path : String) : IO Snapshot := do
  let place := (Path.segments path).foldl FileTree.step (snapshot.tree.start path)
  if snapshot.places.any fun outer => (FileTree.below? outer place).isSome then return snapshot
  return ⟨← withPlace snapshot.tree place, place :: snapshot.places⟩

/-- A snapshot of nothing but the directories around the current one. -/
def Snapshot.empty : IO Snapshot := do
  let current := (Path.names (← IO.currentDir).toString).map String.ofList
  return ⟨← withDirectories ⟨[], [], current⟩ current, []⟩

/-- The variables of some names that are set. -/
def environmentOf (names : List String) : IO Environment :=
  names.filterMapM fun name => return (← IO.getEnv name).map ((name, ·))

/-- The variables that a configuration file refers to. -/
def referencedVariables (tree : FileTree) (path : String) : IO Environment :=
  match (tree.read? path).bind Content.text? with
  | none => return []
  | some text => environmentOf ((Environment.references text).map String.ofList)

/-- The files that a command works on in a project, and the variables they refer to. -/
def projectTree (root : String) (config : Option String) (others : List String) :
    IO (FileTree × Environment) := do
  let configPath := config.getD (Path.join root Settings.fileName)
  -- The root comes first, since what is below it need not be read again.
  let snapshot ← ([root, configPath] ++ others).foldlM Snapshot.withPath (← Snapshot.empty)
  let environment ← referencedVariables snapshot.tree configPath
  match Project.settings snapshot.tree environment root config with
  | .error _ => return (snapshot.tree, environment)
  | .ok settings =>
    let paths := settings.modules.map (Path.join root) ++ [settings.baselineFile root]
    return ((← paths.foldlM Snapshot.withPath snapshot).tree, environment)

/-- A number of at least as many digits as are asked for. -/
def padded (width number : Nat) : String :=
  let digits := Nat.toDigits 10 number
  String.ofList (List.replicate (width - digits.length) '0' ++ digits)

/-- The present time as it is recorded. -/
def currentTime : IO String := do
  let time := Std.Time.DateTime.ofTimestampWithZone (← Std.Time.Timestamp.now) .UTC
  let day := "-".intercalate
    [padded 4 time.year.toInt.toNat, padded 2 time.month.toNat, padded 2 time.day.toNat]
  let moment := ":".intercalate
    [padded 2 time.hour.toNat, padded 2 time.minute.toNat, padded 2 time.second.toNat]
  return day ++ "T" ++ moment ++ "." ++ padded 9 time.nanosecond.toNat ++ "Z"

/-- Puts on the disk what a command has changed in a tree. -/
def save (before after : FileTree) : IO Unit := do
  for place in after.directories.reverse do
    unless before.hasDirectory place do IO.FS.createDirAll (absolutePath place)
  for (place, content) in after.files do
    unless before.content? place = some content do
      match content with
      | .text characters => IO.FS.writeFile (absolutePath place) (String.ofList characters)
      | .raw bytes => IO.FS.writeBinFile (absolutePath place) ⟨bytes.toArray⟩

/-- Runs a command on the files there are. -/
def execute : Command → IO Outcome
  | .check request => do
    let others := request.baseline.toList
    let (tree, environment) ← projectTree request.root request.config others
    return request.run tree environment
  | .record request => do
    let others := request.output.toList
    let (tree, environment) ← projectTree request.root request.config others
    let outcome := request.run tree environment (← currentTime)
    try
      save tree outcome.tree
      return outcome
    catch _ => return ⟨RecordRequest.preamble, tree, some (.baseline .inaccessible)⟩
  | .version => return ⟨versionReport, ⟨[], [], []⟩, none⟩

/-- Says something about the arguments of the program. -/
def answer (notice : UsageNotice) : IO UInt32 := do
  if notice.isAnswer then
    IO.print notice.text
    return 0
  else
    IO.eprint notice.text
    return 2

end Program

end IndexAudit

open IndexAudit in
/-- Runs the command that the arguments name; a command that fails ends the program with a one. -/
def main (arguments : List String) : IO UInt32 := do
  let environment ← Program.environmentOf [Invocation.configVariable]
  match Invocation.ofArguments environment arguments with
  | .error notice => Program.answer notice
  | .ok invocation =>
    let outcome ← Program.execute invocation.command
    IO.print outcome.output
    match outcome.error with
    | none => return 0
    | some error =>
      IO.print Report.gap
      IO.eprint (Report.failure error.text)
      return 1
