import IndexAudit.Baseline.File
import IndexAudit.Config.Environment
import IndexAudit.Exclusions
import IndexAudit.Module.Layout
import IndexAudit.Toml.Document

/-! The settings of a project, and the file that gives them. -/

namespace IndexAudit

/-- The names of what is never reported, as they are configured. -/
structure ExcludedNames where
  tables : List String
  columns : List String
  findings : List String
deriving Repr, DecidableEq

/-- What keeps the settings of a project from being read. -/
inductive SettingsError where
  /-- The file that was asked for does not exist. -/
  | missing (path : String)
  /-- The file cannot be read as a text. -/
  | inaccessible
  | malformed
deriving Repr, DecidableEq

/-- The settings of a project. -/
structure Settings where
  /-- The directories to analyze, from the root of the project; none means that they are found. -/
  modules : List String
  layout : ModuleLayout
  exclude : ExcludedNames
  /-- The baseline file, from the root of the project. -/
  baselinePath : Option String
  /-- Whether findings make a check fail. -/
  failsOnFindings : Bool
deriving Repr, DecidableEq

namespace TomlValue

/-- A list of strings. -/
def strings? : TomlValue → Option (List String)
  | .array items => items.mapM fun item =>
    match item with
    | .string text => some text
    | _ => none
  | _ => none

/-- A string. -/
def string? : TomlValue → Option String
  | .string text => some text
  | _ => none

/-- A truth value. -/
def bool? : TomlValue → Option Bool
  | .bool value => some value
  | _ => none

/--
The values of a record's fields, as far as they are given.

A record is a table with entries of those names, or an array of the values in their order. A point
in time is a record too, of fields that no other record has.
-/
def fields? (names : List String) : TomlValue → Option (List (Option TomlValue))
  | .table _ entries => some (names.map fun name => entries.lookup name)
  | .array items => some ((List.range names.length).map fun index => items[index]?)
  | .tables latestFirst =>
    let items := latestFirst.reverse.map (TomlValue.table .header)
    some ((List.range names.length).map fun index => items[index]?)
  | .dateTime => some (names.map fun _ => none)
  | _ => none

/-- A value that is read if it is given, and has a default if not. -/
def read? {α : Type} (read : TomlValue → Option α) (default : α) : Option TomlValue → Option α
  | none => some default
  | some value => read value

end TomlValue

namespace Settings

/-- The name of the file that gives the settings of a project. -/
def fileName : String := "idxlint.toml"

/-- The settings of a project that gives none. -/
def standard : Settings :=
  ⟨[], .standard, ⟨[], [], []⟩, none, true⟩

/-- The directories to analyze. -/
def modulesOf? (value : TomlValue) : Option (List String) := do
  match ← value.fields? ["modules"] with
  | [modules] => TomlValue.read? TomlValue.strings? [] modules
  | _ => none

/-- The layout of modules. -/
def layoutOf? (value : TomlValue) : Option ModuleLayout := do
  match ← value.fields? ["entity_paths", "repository_paths", "changelog_paths"] with
  | [entities, repositories, changelogs] =>
    some {
      entityPaths := ← TomlValue.read? TomlValue.strings? ModuleLayout.standard.entityPaths entities
      repositoryPaths :=
        ← TomlValue.read? TomlValue.strings? ModuleLayout.standard.repositoryPaths repositories
      changelogPaths :=
        ← TomlValue.read? TomlValue.strings? ModuleLayout.standard.changelogPaths changelogs }
  | _ => none

/-- The names of what is never reported. -/
def excludeOf? (value : TomlValue) : Option ExcludedNames := do
  match ← value.fields? ["tables", "columns", "findings"] with
  | [tables, columns, findings] =>
    some ⟨← TomlValue.read? TomlValue.strings? [] tables,
      ← TomlValue.read? TomlValue.strings? [] columns,
      ← TomlValue.read? TomlValue.strings? [] findings⟩
  | _ => none

/-- The baseline file. -/
def baselineOf? (value : TomlValue) : Option (Option String) := do
  match ← value.fields? ["path"] with
  | [path] => TomlValue.read? (fun value => value.string?.map some) none path
  | _ => none

/-- Whether findings make a check fail. -/
def checkOf? (value : TomlValue) : Option Bool := do
  match ← value.fields? ["fail_on_findings"] with
  | [fails] => TomlValue.read? TomlValue.bool? standard.failsOnFindings fails
  | _ => none

/-- The settings that a document gives; entries of other names do not count. -/
def ofEntries? (entries : TomlEntries) : Option Settings := do
  some {
    modules := ← TomlValue.read? modulesOf? standard.modules (entries.lookup "scan")
    layout := ← TomlValue.read? layoutOf? standard.layout (entries.lookup "layout")
    exclude := ← TomlValue.read? excludeOf? standard.exclude (entries.lookup "exclude")
    baselinePath := ← TomlValue.read? baselineOf? standard.baselinePath (entries.lookup "baseline")
    failsOnFindings :=
      ← TomlValue.read? checkOf? standard.failsOnFindings (entries.lookup "check") }

/-- The settings in a text, after the references to the environment in it are replaced. -/
def ofText? (environment : Environment) (text : List Char) : Option Settings := do
  ofEntries? (← TomlEntries.ofText? (environment.expand text))

/-- The settings in a file that exists. -/
def loadFile (tree : FileTree) (environment : Environment) (path : String) :
    Except SettingsError Settings :=
  match (tree.read? path).bind Content.text? with
  | none => .error .inaccessible
  | some text =>
    match ofText? environment text with
    | none => .error .malformed
    | some settings => .ok settings

/-- The settings of a project: those in the file that is asked for, or in the one at its root. -/
def load (tree : FileTree) (environment : Environment) (root : String) (explicit : Option String) :
    Except SettingsError Settings :=
  match explicit with
  | some path =>
    -- A file that is asked for must be there; the one at the root may be missing.
    if tree.existsAt path then loadFile tree environment path else .error (.missing path)
  | none =>
    let path := Path.join root fileName
    if tree.existsAt path then loadFile tree environment path else .ok standard

/-- The exclusions that are configured. -/
def exclusions (settings : Settings) : Exclusions :=
  .ofNames settings.exclude.tables settings.exclude.columns settings.exclude.findings

/-- The path of the baseline file of a project. -/
def baselineFile (settings : Settings) (root : String) : String :=
  Path.join root (settings.baselinePath.getD Baseline.defaultName)

end Settings

end IndexAudit
