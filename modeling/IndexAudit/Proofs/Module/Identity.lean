import IndexAudit.Finding
import IndexAudit.Module.Discovery
import IndexAudit.Proofs.Files.Name
import Mathlib.Data.List.Pairwise

/-!
Which modules of a project are told apart in its findings.

Findings are identified without regard to letter case, but modules are named with regard to it.
Else modules are confused only where a directory has the name of the project around it, and where
paths that go up or start at the top have the same names as others.
-/

namespace IndexAudit

/-- Two names that differ in letter case, and in nothing else. -/
def DifferInCase (first second : String) : Prop :=
  first ≠ second ∧ lower first = lower second

namespace SourceModule

/-- Findings of two modules about the same column are taken for one finding. -/
def Confused (first second : SourceModule) : Prop :=
  ∀ table column,
    IssueKey.ofNames first.name table column = IssueKey.ofNames second.name table column

/-- Modules are confused if they have one name, or names that differ in letter case. -/
theorem confused_iff {first second : SourceModule} :
    Confused first second ↔ DifferInCase first.name second.name ∨ first.name = second.name := by
  have lowered : Confused first second ↔ lower first.name = lower second.name := by
    simp [Confused, IssueKey.ofNames]
  -- Keys of findings are told apart by the lowered name of the module.
  rw [lowered, DifferInCase]
  by_cases same : first.name = second.name
  · simp [same]
  · simp [same]

/-! Names of directories and of paths. -/

/-- A path that ends with a name has its directory named so, whether it exists or not. -/
theorem directoryName_eq (tree : FileTree) {path : String} {last : List Char}
    (ends : (Path.steps path).getLast? = some last) (downwards : last ≠ ['.', '.']) :
    directoryName tree path = String.ofList last := by
  unfold directoryName directoryName?
  -- An existing path leads to a place of that name; any other has it as its file name.
  cases led : tree.place? path with
  | some place => simp [FileTree.getLast?_of_place? led ends downwards]
  | none => simp [Path.fileName?_eq, ends, downwards, Option.filter]

/-- A directory is named by what can be a name of an entry. -/
theorem isName_directoryName {tree : FileTree} (named : tree.Named) (path : String) :
    Path.IsName (directoryName tree path) := by
  have standard : Path.IsName "root" := by decide
  unfold directoryName directoryName?
  cases led : tree.place? path with
  | some place =>
    cases ends : place.getLast? with
    | none => simpa [ends] using standard
    | some name => simpa [ends] using named.isName led name (List.mem_of_getLast? ends)
  | none =>
    -- A path that leads nowhere gives a name of its own, if it does not go up at its end.
    rw [Path.fileName?_eq]
    cases ends : (Path.steps path).getLast? with
    | none => simpa [ends] using standard
    | some last =>
      by_cases up : last = ['.', '.']
      · simpa [up, Option.filter] using standard
      · have step : last ∈ Path.steps path := List.mem_of_getLast? ends
        have member : last ∈ Path.names path := by simp [Path.names_eq_filter, step, up]
        simpa [up, Option.filter] using Path.isName_of_mem_names member

/-- The names of a path can be read off the name that it gives to a module. -/
theorem splitOn_pathName {path : String} (filled : Path.names path ≠ []) :
    (pathName path).toList.splitOn '/' = Path.names path := by
  -- The name joins the names with slashes, and none of them holds one.
  have plain : ∀ segment ∈ Path.names path, '/' ∉ segment := by
    intro segment member
    simpa using (Path.isName_of_mem_names member).slashless
  simpa [pathName] using List.splitOn_intercalate '/' plain filled

/-- A path without names gives an empty one. -/
theorem pathName_eq_empty_iff {path : String} : pathName path = "" ↔ Path.names path = [] := by
  constructor
  · intro empty
    by_contra filled
    have split := splitOn_pathName filled
    rw [empty] at split
    -- The only name would be empty, but names are not.
    have member : [] ∈ Path.names path := by simp [← split]
    exact absurd (Path.isName_of_mem_names member) (by decide)
  · intro empty
    simp [pathName, empty]

/-- Paths give the same name exactly if they have the same names. -/
theorem pathName_eq_iff {first second : String} :
    pathName first = pathName second ↔ Path.names first = Path.names second := by
  constructor
  · intro same
    by_cases filled : Path.names first = []
    · rw [filled, pathName_eq_empty_iff.mp (same ▸ pathName_eq_empty_iff.mpr filled)]
    -- A name that is not empty is taken apart at its slashes, which no part holds.
    · have other : Path.names second ≠ [] := fun empty =>
        filled (pathName_eq_empty_iff.mp (same ▸ pathName_eq_empty_iff.mpr empty))
      rw [← splitOn_pathName filled, ← splitOn_pathName other, same]
  · intro same
    rw [pathName, pathName, same]

/-- A path gives the name of an entry exactly if that is its only name. -/
theorem pathName_eq_name_iff {path name : String} (isName : Path.IsName name) :
    pathName path = name ↔ Path.names path = [name.toList] := by
  constructor
  · rintro rfl
    -- The name of an entry is not empty, so the path has names, and one without a slash is alone.
    have filled : Path.names path ≠ [] := fun empty => by
      rw [pathName_eq_empty_iff.mpr empty] at isName
      exact absurd isName (by decide)
    rw [← splitOn_pathName filled]
    exact isName.segments_eq
  · intro only
    simp [pathName, only]

/-! Modules that are configured. -/

section Configured

variable (tree : FileTree) (root : String) (paths : List String)

/-- Whether several of the configured paths have directories of the name that a path's has. -/
def IsShared (path : String) : Prop :=
  1 < (paths.map fun other => directoryName tree (Path.join root other)).count
    (directoryName tree (Path.join root path))

/-- Whether a name is shared is decided by counting. -/
instance (path : String) : Decidable (IsShared tree root paths path) :=
  inferInstanceAs (Decidable (1 < _))

/-- The module of one of the configured paths. -/
def ofPath (path : String) : SourceModule :=
  ⟨if IsShared tree root paths path then pathName path
    else directoryName tree (Path.join root path), Path.join root path⟩

/-- A configured path that goes up at its end, and whose only name is that of another directory. -/
structure TakesName (path other : String) : Prop where
  shared : IsShared tree root paths path
  unshared : ¬ IsShared tree root paths other
  goesUp : Path.fileName? path = none
  only : Path.names path = [(directoryName tree (Path.join root other)).toList]

/-- Each configured path has its module. -/
theorem ofPaths_eq_map : ofPaths tree root paths = paths.map (ofPath tree root paths) := by
  -- A path and the name of its directory are paired by the path alone.
  have paired (given : List String) : (given.zip (given.map fun path =>
      directoryName tree (Path.join root path))) =
      given.map fun path => (path, directoryName tree (Path.join root path)) := by
    induction given with
    | nil => rfl
    | cons path rest ih => simp [ih]
  simp only [ofPaths, paired, List.map_map]
  rfl

/-- Of two configured paths whose directories have one name, both share it. -/
theorem pairwise_isShared : paths.Pairwise fun first second =>
    directoryName tree (Path.join root first) = directoryName tree (Path.join root second) →
      IsShared tree root paths first ∧ IsShared tree root paths second := by
  rw [List.pairwise_iff_forall_sublist]
  intro first second both same
  -- The two of them are counted already.
  have count := (both.map fun path => directoryName tree (Path.join root path)).count_le
    (directoryName tree (Path.join root second))
  simp only [List.map_cons, List.map_nil, same, List.count_cons_self, List.count_nil] at count
  have shared : IsShared tree root paths second := count
  exact ⟨by rwa [IsShared, same], shared⟩

variable {tree root paths}

/-- A path that gives the name of a directory that it does not share goes up at its end. -/
theorem fileName?_eq_none {path other : String}
    (apart : directoryName tree (Path.join root path) ≠ directoryName tree (Path.join root other))
    (only : Path.names path = [(directoryName tree (Path.join root other)).toList]) :
    Path.fileName? path = none := by
  cases named : Path.fileName? path with
  | none => rfl
  | some last =>
    rw [Path.fileName?_eq, Option.filter_eq_some_iff] at named
    obtain ⟨ends, downwards⟩ := named
    have downwards : last ≠ ['.', '.'] := by simpa using downwards
    -- Else its only name would be its last step, and its directory would be named so.
    have member : last ∈ Path.names path := by
      rw [Path.names_eq_filter, List.mem_filter]
      exact ⟨List.mem_of_getLast? ends, by simpa using downwards⟩
    rw [only, List.mem_singleton] at member
    have name := directoryName_eq tree (Path.getLast?_steps_join root ends) downwards
    rw [member, String.ofList_toList] at name
    exact absurd name apart

/-- When a path that shares the name of its directory gives that of one that does not. -/
theorem pathName_eq_directoryName_iff (named : tree.Named) {path other : String}
    (shared : IsShared tree root paths path) (unshared : ¬ IsShared tree root paths other) :
    pathName path = directoryName tree (Path.join root other) ↔
      TakesName tree root paths path other := by
  rw [pathName_eq_name_iff (isName_directoryName named _)]
  constructor
  · intro only
    have apart : directoryName tree (Path.join root path) ≠
        directoryName tree (Path.join root other) := by
      -- Else both have the same directory name, and either both share it or neither.
      intro same
      apply unshared
      rw [IsShared, ← same]
      exact shared
    exact ⟨shared, unshared, fileName?_eq_none apart only, only⟩
  · intro takes
    exact takes.only

/-- When two configured paths give their modules the same name. -/
theorem pairwise_name_eq_iff (named : tree.Named) (paths : List String) :
    paths.Pairwise fun first second =>
      ((ofPath tree root paths first).name = (ofPath tree root paths second).name ↔
        (IsShared tree root paths first ∧ IsShared tree root paths second ∧
          Path.names first = Path.names second) ∨
        TakesName tree root paths first second ∨ TakesName tree root paths second first) := by
  refine (pairwise_isShared tree root paths).imp ?_
  intro first second both
  have noTaker {path other : String} (unshared : ¬ IsShared tree root paths path) :
      ¬ TakesName tree root paths path other := fun takes => unshared takes.shared
  have noGiver {path other : String} (shared : IsShared tree root paths other) :
      ¬ TakesName tree root paths path other := fun takes => takes.unshared shared
  -- A module is named by its path or by its directory, as the name of that is shared or not.
  by_cases left : IsShared tree root paths first
  · by_cases right : IsShared tree root paths second
    · simp [ofPath, left, right, pathName_eq_iff, noGiver left, noGiver right]
    · simp [ofPath, left, right, noTaker right, pathName_eq_directoryName_iff named left right]
  · by_cases right : IsShared tree root paths second
    · simp only [ofPath, left, right, if_false, if_true, false_and, false_or, noTaker left]
      rw [eq_comm, pathName_eq_directoryName_iff named right left]
    · have apart : directoryName tree (Path.join root first) ≠
          directoryName tree (Path.join root second) := fun same => left (both same).1
      simp [ofPath, left, right, noTaker left, noTaker right, apart]

/-- A configured path that goes only down takes no name of another directory. -/
theorem TakesName.not_descends {path other : String}
    (takes : TakesName tree root paths path other) : ¬ Path.Descends path := by
  intro descends
  have unnamed := takes.goesUp
  rw [Path.fileName?_eq, descends.steps_eq, takes.only] at unnamed
  have isStep : (directoryName tree (Path.join root other)).toList ∈ Path.steps path := by
    rw [descends.steps_eq, takes.only]
    simp
  -- The name is no step up, so the path ends with it.
  have up : (directoryName tree (Path.join root other)).toList = ['.', '.'] := by
    simpa [Option.filter] using unnamed
  rw [up] at isStep
  exact descends.downwards (List.mem_of_mem_filter isStep)

end Configured

/-! Modules that are found. -/

/-- The directories found in a place have names that a path can give. -/
theorem isName_of_mem_visibleDirectories {tree : FileTree} (named : tree.Named) {place : Place}
    {name : String} (visible : name ∈ visibleDirectories tree place) : Path.IsName name := by
  have listed : name ∈ tree.childDirectories place := List.mem_of_mem_filter visible
  rw [FileTree.childDirectories, List.mem_mergeSort, List.mem_filterMap] at listed
  obtain ⟨directory, isDirectory, below⟩ := listed
  split at below
  case h_1 inner inside =>
    obtain rfl := Option.some.inj below
    -- The name is one of the names in the path of a directory of the tree.
    have whole := FileTree.below?_eq_some.mp inside
    exact named.directories directory isDirectory _ (by simp [whole])
  case h_2 => cases below

/-- The steps of a directory found in the root. -/
theorem steps_join_name (root : String) {name : String} (isName : Path.IsName name) :
    Path.steps (Path.join root name) = Path.steps root ++ [name.toList] := by
  -- A name is relative, and it is one step that goes down.
  rw [Path.steps_join isName.isAbsolute_eq]
  simp [Path.steps, isName.segments_eq, isName.moves]

/-- A directory found in the root has its own name. -/
theorem directoryName_join (tree : FileTree) (root : String) {name : String}
    (isName : Path.IsName name) : directoryName tree (Path.join root name) = name := by
  -- The name is the last step of its path.
  have ends : (Path.steps (Path.join root name)).getLast? = some name.toList := by
    simp [steps_join_name root isName]
  simpa using directoryName_eq tree ends isName.downwards

/-- Directories in the root have one path only if they have one name. -/
theorem join_inj (root : String) {first second : String} (left : Path.IsName first)
    (right : Path.IsName second) (same : Path.join root first = Path.join root second) :
    first = second := by
  -- The path tells its steps, and the name is the last of them.
  have steps := congrArg Path.steps same
  rw [steps_join_name root left, steps_join_name root right] at steps
  exact String.toList_inj.mp (by simpa using steps)

/-- A directory in the root is not the root. -/
theorem join_ne (root : String) {name : String} (isName : Path.IsName name) :
    Path.join root name ≠ root := by
  -- The directory has one step more than the root.
  intro same
  have steps := congrArg Path.steps same
  rw [steps_join_name root isName] at steps
  simp at steps

/-- Modules that are found are confused by letter case, or by the name of the root. -/
theorem pairwise_found {tree : FileTree} (named : tree.Named) (layout : ModuleLayout)
    (root : String) (place : Place) :
    (found tree layout root place).Pairwise fun first second =>
      first.directory ≠ second.directory →
        (Confused first second ↔ DifferInCase first.name second.name ∨
          first.directory = root ∧ second.directory = Path.join root first.name) := by
  have isModule {directory : String} {module : SourceModule}
      (there : ofDirectory? tree layout directory = some module) :
      module = ⟨directoryName tree directory, directory⟩ := by
    unfold ofDirectory? at there
    split at there
    · exact (Option.some.inj there).symm
    · cases there
  rw [found, List.pairwise_filterMap, List.pairwise_cons]
  constructor
  · -- The root has the name of one of its directories only if it is that one's.
    intro directory member module there other thereToo _
    obtain ⟨name, visible, rfl⟩ := List.mem_map.mp member
    have isName := isName_of_mem_visibleDirectories named visible
    have rootName := isName_directoryName named root
    obtain rfl := isModule there
    obtain rfl := isModule thereToo
    have iff : directoryName tree root = name ↔
        Path.join root name = Path.join root (directoryName tree root) :=
      ⟨fun same => by rw [same], fun same => (join_inj root isName rootName same).symm⟩
    simp [confused_iff, directoryName_join tree root isName, iff]
  · -- Different directories in the root have different names.
    rw [List.pairwise_map]
    refine List.pairwise_of_forall_mem_list ?_
    intro first isFirst second isSecond module there other thereToo apart
    have left := isName_of_mem_visibleDirectories named isFirst
    have right := isName_of_mem_visibleDirectories named isSecond
    obtain rfl := isModule there
    obtain rfl := isModule thereToo
    have differ : first ≠ second := fun same => apart (by rw [same])
    simp [confused_iff, directoryName_join tree root left, directoryName_join tree root right,
      differ, join_ne root left]

/--
Two modules of a project are confused in its findings in these cases and in no others.

Their names differ in letter case only, whether they are found or configured. Of those found, one is
the root of the project, and the other the directory in it that has its name. Of those configured,
both are named by paths that have the same names apart from steps up and the place they start from,
or one path that goes up at its end has just the name of the other directory. Relative paths that go
only down are not confused but by letter case, if they have different names.
-/
theorem discover?_confused {tree : FileTree} {settings : Settings} {root : String}
    {modules : List SourceModule} (named : tree.Named)
    (discovered : discover? tree settings root = some modules) :
    (settings.modules = [] → modules.Pairwise fun first second =>
      first.directory ≠ second.directory →
        (Confused first second ↔ DifferInCase first.name second.name ∨
          first.directory = root ∧ second.directory = Path.join root first.name)) ∧
    (settings.modules ≠ [] →
      let module := ofPath tree root settings.modules
      let shared := IsShared tree root settings.modules
      let takesName := TakesName tree root settings.modules
      modules = settings.modules.map module ∧
        settings.modules.Pairwise fun first second =>
          (Confused (module first) (module second) ↔
            DifferInCase (module first).name (module second).name ∨
            (shared first ∧ shared second ∧ Path.names first = Path.names second) ∨
            takesName first second ∨ takesName second first) ∧
          (Path.Descends first → Path.Descends second → Path.names first ≠ Path.names second →
            (Confused (module first) (module second) ↔
              DifferInCase (module first).name (module second).name))) := by
  simp only [discover?] at discovered
  split at discovered
  · cases discovered
  rename_i place _
  by_cases empty : settings.modules = []
  · refine ⟨fun _ => ?_, fun filled => absurd empty filled⟩
    rw [if_pos (by simp [empty])] at discovered
    obtain rfl := Option.some.inj discovered
    exact pairwise_found named settings.layout root place
  · refine ⟨fun none => absurd none empty, fun _ => ⟨?_, ?_⟩⟩
    · rw [if_neg (by simpa using empty)] at discovered
      obtain rfl := Option.some.inj discovered
      exact ofPaths_eq_map tree root settings.modules
    · refine (@pairwise_name_eq_iff tree root named settings.modules).imp ?_
      intro first second same
      rw [confused_iff, same]
      refine ⟨Iff.rfl, fun down downToo apart => ?_⟩
      -- Of the ways to get the same name, all but letter case are closed to such paths.
      have noTaker : ¬ TakesName tree root settings.modules first second :=
        fun takes => takes.not_descends down
      have noTakerToo : ¬ TakesName tree root settings.modules second first :=
        fun takes => takes.not_descends downToo
      simp [apart, noTaker, noTakerToo]

/-- A project with directories for bills inside and outside, and for taxes in two spellings. -/
def officeTree : FileTree where
  files := []
  directories := [["p"], ["p", "a"], ["p", "a", "bills"], ["a"], ["a", "bills"], ["p", "b"],
    ["p", "b", "tax"], ["p", "c"], ["p", "c", "Tax"]]
  current := ["p"]

/-- The settings of that project. -/
def officeSettings : Settings :=
  { Settings.standard with modules := ["a/bills", "../a/bills", "b/tax", "c/Tax"] }

/-- A project that has its changelog in itself and in a directory of its own name. -/
def nestedTree : FileTree where
  files := [(["office", "changelog.sql"], .text []), (["office", "office", "changelog.sql"], .text [])]
  directories := [["office"], ["office", "office"]]
  current := []

/-- The settings of that project, whose modules are found by their changelogs. -/
def nestedSettings : Settings :=
  { Settings.standard with layout := ⟨[], [], ["changelog.sql"]⟩ }

/--
Of configured modules, the bills are confused by a step up and the taxes by letter case; of those
found, a directory is confused with the root that has its name.
-/
theorem discover?_confused_office :
    (officeTree.Named ∧ officeSettings.modules ≠ [] ∧
      discover? officeTree officeSettings "." = some [⟨"a/bills", "./a/bills"⟩,
        ⟨"a/bills", "./../a/bills"⟩, ⟨"tax", "./b/tax"⟩, ⟨"Tax", "./c/Tax"⟩] ∧
      Confused ⟨"a/bills", "./a/bills"⟩ ⟨"a/bills", "./../a/bills"⟩ ∧
      Confused ⟨"tax", "./b/tax"⟩ ⟨"Tax", "./c/Tax"⟩) ∧
    nestedTree.Named ∧ nestedSettings.modules = [] ∧
      discover? nestedTree nestedSettings "/office" =
        some [⟨"office", "/office"⟩, ⟨"office", "/office/office"⟩] ∧
      Confused ⟨"office", "/office"⟩ ⟨"office", "/office/office"⟩ := by
  refine ⟨?configured, ?found⟩
  case configured =>
    have named : officeTree.Named := by decide
    have configured : officeSettings.modules ≠ [] := by decide
    have discovered : discover? officeTree officeSettings "." = some [⟨"a/bills", "./a/bills"⟩,
        ⟨"a/bills", "./../a/bills"⟩, ⟨"tax", "./b/tax"⟩, ⟨"Tax", "./c/Tax"⟩] := by
      decide +kernel
    obtain ⟨-, pairs⟩ := (discover?_confused named discovered).2 configured
    rw [List.pairwise_iff_forall_sublist] at pairs
    -- Each of the two pairs is among the modules in this order.
    have bills := @pairs "a/bills" "../a/bills" (by decide)
    have taxes := @pairs "b/tax" "c/Tax" (by decide)
    refine ⟨named, configured, discovered, ?_, ?_⟩
    · have confused := bills.1.mpr (.inr (.inl (by decide +kernel)))
      exact confused
    · have respelled : DifferInCase "tax" "Tax" := ⟨by decide, by decide +kernel⟩
      exact (taxes.2 (by decide) (by decide) (by decide)).mpr respelled
  case found =>
    have named : nestedTree.Named := by decide
    have discovered : discover? nestedTree nestedSettings "/office" =
        some [⟨"office", "/office"⟩, ⟨"office", "/office/office"⟩] := by
      decide +kernel
    have pairs := (discover?_confused named discovered).1 rfl
    -- The second module is the directory in the first one that has its name.
    have inner := (List.pairwise_pair.mp pairs) (by decide)
    exact ⟨named, rfl, discovered, inner.mpr (.inr ⟨rfl, by decide⟩)⟩

end SourceModule

end IndexAudit
