import IndexAudit.Changelog.Walk
import IndexAudit.Comparison
import IndexAudit.Entity
import IndexAudit.Module.Layout
import IndexAudit.Query.Repository

/-! The entities and repository queries of a project's modules, and the findings on these. -/

namespace IndexAudit

namespace FileTree

/-- The endings of the files that hold sources. -/
def sourceExtensions : List String :=
  ["kt", "java"]

/-- The source files of a directory with their texts, in order. -/
def sources (tree : FileTree) (directory : String) : List (String × List Char) :=
  (tree.findFiles directory sourceExtensions).filterMap fun path =>
    (tree.read? path).map fun content => (path, content.lossyText)

/-- The mappings of the entities in a directory, in the order of their files. -/
def entityMappings (tree : FileTree) (directory : String) : List TableMapping :=
  (tree.sources directory).filterMap fun source => Entity.mappingOfText? source.2

/-- The columns that the repositories in a directory query, in the order of their files. -/
def queryColumns (tree : FileTree) (mappings : Mappings) (directory : String) :
    List QueryColumn :=
  (tree.sources directory).flatMap fun source => Repository.columns source.1 mappings source.2

end FileTree

/-- A directory that is analyzed under a name, which the findings on it take as their service. -/
structure SourceModule where
  name : String
  directory : String
deriving Repr, DecidableEq

namespace SourceModule

/-- The paths of one kind in a layout, from where the directory of the module is. -/
def pathsIn (module : SourceModule) (paths : List String) : List String :=
  paths.map (Path.join module.directory)

/-- The mappings of the entities of a module. -/
def mappings (tree : FileTree) (layout : ModuleLayout) (module : SourceModule) : Mappings :=
  .ofList ((module.pathsIn layout.entityPaths).flatMap tree.entityMappings)

/-- The findings on a module. -/
def missingIndexes (tree : FileTree) (layout : ModuleLayout) (exclusions : Exclusions)
    (module : SourceModule) : List MissingIndex :=
  let mappings := module.mappings tree layout
  let queries := (module.pathsIn layout.repositoryPaths).flatMap (tree.queryColumns mappings)
  let indexes := (module.pathsIn layout.changelogPaths).flatMap (Changelog.indexedColumns tree)
  MissingIndex.compare module.name queries indexes exclusions

/-- The findings on several modules, in the order of their keys. -/
def analyze (tree : FileTree) (layout : ModuleLayout) (exclusions : Exclusions)
    (modules : List SourceModule) : List MissingIndex :=
  MissingIndex.merge (modules.map (missingIndexes tree layout exclusions))

end SourceModule

end IndexAudit
