import IndexAudit.Config.Settings
import IndexAudit.Module.Analysis

/-! The modules of a project. -/

namespace IndexAudit

namespace SourceModule

/-- The last name of the place that a path leads to, or of the path itself if it leads nowhere. -/
def directoryName? (tree : FileTree) (directory : String) : Option String :=
  match tree.place? directory with
  | some place => place.getLast?
  | none => (Path.fileName? directory).map String.ofList

/-- The name that a module has by its directory. -/
def directoryName (tree : FileTree) (directory : String) : String :=
  (directoryName? tree directory).getD "root"

/-- The name that a module has by its configured path. -/
def pathName (path : String) : String :=
  String.ofList (['/'].intercalate (Path.names path))

/-- The modules of configured paths; those that share a directory name are named by their paths. -/
def ofPaths (tree : FileTree) (root : String) (paths : List String) : List SourceModule :=
  let names := paths.map fun path => directoryName tree (Path.join root path)
  (paths.zip names).map fun (path, name) =>
    -- A name that several paths share would merge the findings of their modules.
    let shared := 1 < names.count name
    ⟨if shared then pathName path else name, Path.join root path⟩

/-- The module that a directory is, if anything of a layout exists in it. -/
def ofDirectory? (tree : FileTree) (layout : ModuleLayout) (directory : String) :
    Option SourceModule :=
  if layout.isIn tree directory then some ⟨directoryName tree directory, directory⟩ else none

/-- The directories directly below a place that may be modules, in order. -/
def visibleDirectories (tree : FileTree) (place : Place) : List String :=
  (tree.childDirectories place).filter fun name => name.toList.head? != some '.'

/-- The root and the directories in it that are modules. -/
def found (tree : FileTree) (layout : ModuleLayout) (root : String) (place : Place) :
    List SourceModule :=
  (root :: (visibleDirectories tree place).map (Path.join root)).filterMap
    (ofDirectory? tree layout)

/-- The modules of a project, unless its root is no directory. -/
def discover? (tree : FileTree) (settings : Settings) (root : String) :
    Option (List SourceModule) :=
  match (tree.place? root).filter tree.hasDirectory with
  | none => none
  | some place =>
    if settings.modules.isEmpty then some (found tree settings.layout root place)
    else some (ofPaths tree root settings.modules)

end SourceModule

end IndexAudit
