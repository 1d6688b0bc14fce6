import IndexAudit.Files.Tree

/-! Where modules keep their sources and changelogs. -/

namespace IndexAudit

/-- The paths of sources and changelogs, from the directory of a module. -/
structure ModuleLayout where
  entityPaths : List String
  repositoryPaths : List String
  changelogPaths : List String
deriving Repr, DecidableEq

namespace ModuleLayout

/-- The directories that hold sources unless others are configured. -/
def defaultSourcePaths : List String :=
  ["src/main/kotlin", "src/main/java"]

/-- The directory that holds changelogs unless others are configured. -/
def defaultChangelogPaths : List String :=
  ["src/main/resources/db/changelog"]

/-- The layout of modules unless another one is configured. -/
def standard : ModuleLayout :=
  ⟨defaultSourcePaths, defaultSourcePaths, defaultChangelogPaths⟩

/-- All paths of a layout. -/
def paths (layout : ModuleLayout) : List String :=
  layout.entityPaths ++ layout.repositoryPaths ++ layout.changelogPaths

/-- Whether anything of a layout exists in a directory. -/
def isIn (layout : ModuleLayout) (tree : FileTree) (directory : String) : Bool :=
  layout.paths.any fun path => tree.existsAt (Path.join directory path)

end ModuleLayout

end IndexAudit
