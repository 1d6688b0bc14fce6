import IndexAudit.Command.Run
import IndexAudit.Proofs.Baseline.File
import IndexAudit.Proofs.Module.Tasks

/-!
Findings that are accepted in one run are known in every later one.

This spans the file in between: what is written there is read back, by the command that checks as by
the one that records.
-/

namespace IndexAudit

namespace Baseline

/-- What issues that accept findings are, and what they make of any findings later on. -/
structure Accepts (findings : List MissingIndex) (accepted : List Issue) : Prop where
  /-- Keys strictly increase, so each of them is accepted once. -/
  ordered : accepted.Pairwise fun a b => a.key.parts < b.key.parts
  /-- Each key is accepted in the spelling in which it was found first. -/
  first : ∀ issue, issue ∈ accepted ↔
    Keyed.IsFirst Issue.key (findings.map MissingIndex.issue) issue
  /-- Of later findings those are new whose key was not found before. -/
  later : ∀ found : List MissingIndex, (compare found accepted).newIssues.Perm
    (found.filter fun finding => ∀ known ∈ findings, known.key ≠ finding.key)
  /-- Finding the same again is nothing new, and nothing is resolved by it. -/
  nothingNew : (compare findings accepted).newIssues = []
  nothingResolved : (compare findings accepted).resolvedIssues = []

/-- A key is among the distinct issues of findings exactly if one of the findings has it. -/
theorem contains_key_distinct {findings : List MissingIndex} {key : IssueKey} :
    ((distinct (findings.map MissingIndex.issue)).map Issue.key).contains key = true ↔
      ∃ known ∈ findings, known.key = key := by
  rw [contains_key_iff]
  constructor
  · rintro ⟨issue, member, same⟩
    obtain ⟨known, isKnown, rfl⟩ := List.mem_map.mp (mem_distinct.mp member).mem
    exact ⟨known, isKnown, same⟩
  · -- The first issue of the key is kept.
    rintro ⟨known, isKnown, same⟩
    obtain ⟨issue, first, sameKey⟩ := Keyed.exists_isFirst Issue.key
      (List.mem_map.mpr ⟨known, isKnown, rfl⟩ : known.issue ∈ findings.map MissingIndex.issue)
    exact ⟨issue, mem_distinct.mpr first, sameKey.trans same⟩

/-- The new ones of later findings are those of other keys, in their order. -/
theorem newIssues_distinct (findings found : List MissingIndex) :
    (compare found (distinct (findings.map MissingIndex.issue))).newIssues =
      (Keyed.sort (·.key.parts) found).filter
        fun finding => ∀ known ∈ findings, known.key ≠ finding.key := by
  -- What is accepted has the keys of the findings, all of them and no others.
  refine List.filter_congr fun finding _ => ?_
  rw [Bool.eq_iff_iff, Bool.not_eq_true', Bool.eq_false_iff, Ne, contains_key_distinct]
  simp

/-- Of no issues none is kept. -/
theorem distinct_nil : distinct [] = [] := by
  simp [distinct, Keyed.sort, Keyed.firsts, Keyed.firstsAfter]

/-- The distinct issues of findings accept them. -/
theorem accepts_distinct (findings : List MissingIndex) :
    Accepts findings (distinct (findings.map MissingIndex.issue)) := by
  constructor
  case ordered => exact distinct_ordered _
  case first => exact fun issue => mem_distinct
  case later =>
    intro found
    rw [newIssues_distinct]
    exact (Keyed.sort_perm _ found).filter _
  case nothingNew =>
    -- Each finding is known by its own key.
    rw [newIssues_distinct, List.filter_eq_nil_iff]
    intro finding member isNew
    rw [Keyed.mem_sort] at member
    exact of_decide_eq_true isNew finding member rfl
  case nothingResolved =>
    -- Every accepted key is one that is found, so nothing is left to be distinct.
    have known : (distinct (findings.map MissingIndex.issue)).filter
        (fun issue => !(findings.map MissingIndex.key).contains issue.key) = [] := by
      rw [List.filter_eq_nil_iff]
      intro issue member isLost
      obtain ⟨finding, isFound, rfl⟩ := List.mem_map.mp (mem_distinct.mp member).mem
      have isKnown : finding.issue.key ∈ findings.map MissingIndex.key :=
        List.mem_map.mpr ⟨finding, isFound, rfl⟩
      simp [List.contains_eq_mem, isKnown] at isLost
    simp only [compare, known]
    exact distinct_nil

end Baseline

/-! What a recording leaves as it was: the settings of the project, and its root. -/

namespace FileTree

/-- Where a path led before a file is written with its directories, it leads afterwards. -/
theorem place?_written {tree : FileTree} {file path : String} {place target : Place}
    (content : Content) (led : tree.place? path = some place) :
    ((Baseline.withHousing tree file).put target content).place? path = some place := by
  -- Making directories takes nothing away, and neither does writing the file.
  obtain ⟨added, housed⟩ := Baseline.withHousing_eq tree file
  rw [housed]
  exact place?_isWithin (isWithin_put _ _ _) rfl
    (place?_isWithin (isWithin_directories tree added) rfl led)

/-- Any other file holds what it held before a file is written with its directories. -/
theorem content?_written {tree : FileTree} {file : String} {source target : Place}
    (content : Content) (other : source ≠ target) :
    ((Baseline.withHousing tree file).put target content).content? source =
      tree.content? source := by
  -- Making directories touches no file.
  obtain ⟨added, housed⟩ := Baseline.withHousing_eq tree file
  rw [content?_put_of_ne _ _ other, housed]
  rfl

/-- Directories stay directories when a file is written with the directories around it. -/
theorem hasDirectory_written {tree : FileTree} {file : String} {place target : Place}
    (content : Content) (present : tree.hasDirectory place = true) :
    ((Baseline.withHousing tree file).put target content).hasDirectory place = true := by
  -- The housing has more directories, and the file adds nothing to them.
  obtain ⟨added, housed⟩ := Baseline.withHousing_eq tree file
  rw [housed]
  exact (isWithin_directories tree added).directory place present

end FileTree

namespace Settings

/-- The file that gives the settings of a project, if it exists. -/
def file (root : String) (config : Option String) : String :=
  config.getD (Path.join root fileName)

/-- Settings are read from one file, so a tree in which that is the same gives the same. -/
theorem load_eq {tree other : FileTree} {root : String} {config : Option String}
    (exist : other.existsAt (file root config) = tree.existsAt (file root config))
    (read : other.read? (file root config) = tree.read? (file root config))
    (environment : Environment) :
    load other environment root config = load tree environment root config := by
  -- Both the file that is asked for and the one at the root are only looked up and read.
  cases config with
  | none => simp only [load, loadFile, file, Option.getD_none] at exist read ⊢; rw [exist, read]
  | some path => simp only [load, loadFile, file, Option.getD_some] at exist read ⊢; rw [exist, read]

/-- Where the file of the settings does not exist, they are the standard ones. -/
theorem standard_of_load {tree : FileTree} {environment : Environment} {root : String}
    {config : Option String} {settings : Settings}
    (loaded : load tree environment root config = .ok settings)
    (absent : tree.place? (file root config) = none) : config = none ∧ settings = standard := by
  -- A file that is asked for has to exist.
  cases config with
  | some path => simp_all [load, file, FileTree.existsAt]
  | none => simp_all [load, file, FileTree.existsAt]

end Settings

namespace Baseline

/-- Issues that are persisted are put where there is room for their file. -/
theorem put_of_persist {tree written : FileTree} {path time : String} {issues : List Issue}
    (persisted : persist tree path time issues = (written, .ok ())) :
    ∃ target, (withHousing tree path).filePlace? path = some target ∧
      (withHousing tree path).put target (.text (text time issues).toList) = written := by
  -- Writing is putting, once there is room.
  simpa [FileTree.write?, Option.bind_eq_some_iff] using write?_of_persist persisted

/-- A project is analyzed exactly if its root is a directory. -/
theorem exists_analyze_iff {tree : FileTree} (settings : Settings) {root : String} :
    (∃ found, Project.analyze tree settings root = .ok found) ↔
      ∃ place, tree.place? root = some place ∧ tree.hasDirectory place = true := by
  rw [Project.analyze_eq, Project.modules, SourceModule.discover?]
  -- Whether the settings name modules or not, discovering them fails only without a directory.
  cases led : tree.place? root with
  | none => simp [Except.map]
  | some place =>
    by_cases directory : tree.hasDirectory place = true
    · by_cases unnamed : settings.modules.isEmpty = true
      · simp [Option.filter, directory, unnamed, Except.map]
      · simp [Option.filter, directory, unnamed, Except.map]
    · simp [Option.filter, directory, Except.map]

/-- Persisting issues leaves directories what they are, and where they are. -/
theorem directory_persisted {tree written : FileTree} {file path time : String}
    {issues : List Issue} {place : Place}
    (persisted : persist tree file time issues = (written, .ok ()))
    (led : tree.place? path = some place) (directory : tree.hasDirectory place = true) :
    written.place? path = some place ∧ written.hasDirectory place = true := by
  -- What is written is one file, with directories around it.
  obtain ⟨target, -, rfl⟩ := put_of_persist persisted
  exact ⟨FileTree.place?_written _ led, FileTree.hasDirectory_written _ directory⟩

/-- Persisting issues leaves the settings as they are, unless it writes into their file. -/
theorem settings_persisted {tree written : FileTree} {environment : Environment} {root : String}
    {config : Option String} {settings : Settings} {time : String} {issues : List Issue}
    {place : Place} (led : tree.place? root = some place)
    (loaded : Settings.load tree environment root config = .ok settings)
    (persisted : persist tree (settings.baselineFile root) time issues = (written, .ok ()))
    (apart : written.place? (settings.baselineFile root) ≠
      written.place? (Settings.file root config)) :
    Settings.load written environment root config = .ok settings := by
  obtain ⟨target, room, rfl⟩ := put_of_persist persisted
  rw [FileTree.place?_put room] at apart
  rw [← loaded]
  cases found : tree.place? (Settings.file root config) with
  | some source =>
    -- The file is where it was, and what is written is another one.
    rw [FileTree.place?_written _ found] at apart
    have other : source ≠ target := fun same => apart (by rw [same])
    refine Settings.load_eq ?_ ?_ environment
    · simp [FileTree.existsAt, FileTree.place?_written _ found, found]
    · simp [FileTree.read?, FileTree.place?_written _ found, FileTree.content?_written _ other, found]
  | none =>
    -- Without a file the settings are the standard ones, so what is written is the standard file,
    -- in the root of the project.
    obtain ⟨rfl, rfl⟩ := Settings.standard_of_load loaded found
    have own : Settings.file root none = Path.join root Settings.fileName := rfl
    have baseline : Settings.standard.baselineFile root = Path.join root defaultName := rfl
    rw [baseline, withHousing_join led (by decide)] at room ⊢
    rw [own] at found
    have absent := (FileTree.place?_put_sibling led (by decide) (by decide) (by decide) room
      (.text (text time issues).toList)).trans found
    refine Settings.load_eq ?_ ?_ environment
    · simp [own, FileTree.existsAt, absent, found]
    · simp [own, FileTree.read?, absent, found]

/-- A recording that names no file writes the one that the settings give for its root. -/
theorem file_unnamed {settings : Settings} {record : RecordRequest} (unnamed : record.output = none) :
    record.file settings = settings.baselineFile record.root := by
  rw [RecordRequest.file, unnamed]
  rfl

/-- A check that names no file reads the one that a recording writes which names none either. -/
theorem baselineFile?_written {written : FileTree} {settings : Settings} {record : RecordRequest}
    {check : CheckRequest} (unnamed : record.output = none) (unasked : check.baseline = none)
    (same : check.root = record.root) (present : written.existsAt (record.file settings) = true) :
    check.baselineFile? written settings = some (record.file settings) := by
  -- Both ask the settings for the file of the same root.
  rw [file_unnamed unnamed, ← same] at present ⊢
  simp [CheckRequest.baselineFile?, unasked, present]

/-- A recording that goes well has analyzed the project and persisted its findings. -/
theorem persisted_of_run {tree : FileTree} {environment : Environment} {time : String}
    {record : RecordRequest} {settings : Settings}
    (configured : Project.settings tree environment record.root record.config = .ok settings)
    (recorded : (record.run tree environment time).error = none) :
    ∃ modules missing, Project.analyze tree settings record.root = .ok (modules, missing) ∧
      persist tree (record.file settings) time (missing.map MissingIndex.issue) =
        ((record.run tree environment time).tree, .ok ()) := by
  -- Each of the two steps that may fail has an outcome with an error of its own.
  simp only [RecordRequest.run, configured] at recorded ⊢
  cases analyzed : Project.analyze tree settings record.root with
  | error error => simp [analyzed] at recorded
  | ok found =>
    obtain ⟨modules, missing⟩ := found
    refine ⟨modules, missing, rfl, ?_⟩
    simp only [analyzed] at recorded ⊢
    cases persisted : persist tree (record.file settings) time
        (missing.map MissingIndex.issue) with
    | mk written result =>
      cases result with
      | error error => simp [persisted] at recorded
      | ok done => rfl

/-- A check with given settings ends in a report, which decides whether it fails. -/
theorem run_of_report {tree : FileTree} {environment : Environment} {settings : Settings}
    {check : CheckRequest} {report : CheckReport}
    (configured : Project.settings tree environment check.root check.config = .ok settings)
    (reported : check.report tree settings = .ok report) :
    check.run tree environment =
      ⟨check.output report, tree, check.failure? settings report⟩ := by
  -- Neither of the two steps that may fail does.
  simp [CheckRequest.run, configured, reported, Bind.bind, Except.bind, Pure.pure, Except.pure]

/-- The settings of a project are those that are loaded. -/
theorem settings_eq_ok_iff {tree : FileTree} {environment : Environment} {root : String}
    {config : Option String} {settings : Settings} :
    Project.settings tree environment root config = .ok settings ↔
      Settings.load tree environment root config = .ok settings := by
  -- An error of the file is told as one of the command, and settings are passed on.
  rw [Project.settings]
  cases Settings.load tree environment root config with
  | error error => simp
  | ok loaded => simp

/-- What a check reports, as far as its own analysis goes well. -/
theorem report_written {written : FileTree} {settings : Settings} {check : CheckRequest}
    {path : String} {accepted : List Issue}
    (file : check.baselineFile? written settings = some path)
    (loaded : load written path = .ok accepted) :
    check.report written settings = (Project.analyze written settings check.root).map
      fun (modules, found) => ⟨check.root, modules, found, some (path, compare found accepted)⟩ := by
  -- Each step of the report is one that went well, so they come to what the last one gives.
  simp only [CheckRequest.report, file, CheckRequest.compare, loaded]
  rfl

/--
Findings that are persisted are accepted by what is loaded, which stays as it is when it is
persisted again; and where neither command names a file, the one that checks reads the file that
the one that records wrote. It reads the same settings again, unless the baseline is written into
their file, and nothing but findings that are new can make it fail.
-/
theorem acceptance {time : String} (timely : Timestamp.isTime time = true) :
    (∀ (tree written : FileTree) (path : String) (findings : List MissingIndex),
      persist tree path time (findings.map MissingIndex.issue) = (written, .ok ()) →
        ∃ accepted, load written path = .ok accepted ∧ Accepts findings accepted ∧
          ∀ (later again : FileTree) (place laterTime : String),
            Timestamp.isTime laterTime = true →
            persist later place laterTime accepted = (again, .ok ()) →
              load again place = .ok accepted) ∧
    ∀ (tree : FileTree) (environment : Environment) (settings : Settings) (record : RecordRequest)
      (check : CheckRequest),
      record.output = none → check.baseline = none → check.root = record.root →
      Project.settings tree environment record.root record.config = .ok settings →
      (record.run tree environment time).error = none →
        let written := (record.run tree environment time).tree
        ∃ modules missing accepted,
          Project.analyze tree settings record.root = .ok (modules, missing) ∧
          Accepts missing accepted ∧
          check.report written settings =
            (Project.analyze written settings check.root).map (fun (modules, found) =>
              ⟨check.root, modules, found, some (record.file settings, compare found accepted)⟩) ∧
          (check.config = record.config →
            written.place? (record.file settings) ≠
              written.place? (Settings.file record.root record.config) →
            ∃ modules found,
              Project.analyze written settings check.root = .ok (modules, found) ∧
              let report : CheckReport := ⟨check.root, modules, found,
                some (record.file settings, compare found accepted)⟩
              check.run written environment =
                ⟨check.output report, written, check.failure? settings report⟩) := by
  refine ⟨?file, ?commands⟩
  case file =>
    intro tree written path findings persisted
    refine ⟨_, (load_persist timely persisted).2, accepts_distinct findings, ?_⟩
    -- What is loaded is distinct, so writing it again leaves nothing out.
    intro later again place laterTime laterTimely persistedAgain
    rw [(load_persist laterTimely persistedAgain).2, distinct_distinct]
  case commands =>
    intro tree environment settings record check unnamed unasked same configured recorded written
    obtain ⟨modules, missing, analyzed, persisted⟩ := persisted_of_run configured recorded
    obtain ⟨present, loaded⟩ := load_persist timely persisted
    -- The check finds the file where it was written, and compares with what is loaded from it.
    have report := report_written (baselineFile?_written unnamed unasked same present) loaded
    refine ⟨modules, missing, _, analyzed, accepts_distinct missing, report, ?_⟩
    intro sameConfig apart
    -- The root is still a directory, so it is analyzed again, by the settings that are read again.
    obtain ⟨place, led, directory⟩ := (exists_analyze_iff settings).mp ⟨_, analyzed⟩
    obtain ⟨⟨modules, found⟩, again⟩ :=
      (exists_analyze_iff settings).mpr ⟨place, directory_persisted persisted led directory⟩
    rw [file_unnamed unnamed] at persisted apart
    have kept := settings_persisted led (settings_eq_ok_iff.mp configured) persisted apart
    rw [← same] at again
    rw [again] at report
    refine ⟨modules, found, again, run_of_report ?_ report⟩
    rw [same, sameConfig]
    exact settings_eq_ok_iff.mpr kept

/-- A column that is found under two spellings, with quotation marks in the name of its service. -/
def respelled : List MissingIndex :=
  [⟨"Shop \"A\"", "Orders", "State", "OrderRepository.findByState", "Order.kt", 3, .derived⟩,
    ⟨"shop \"a\"", "orders", "state", "OrderRepository.listByState", "Order.kt", 7, .jpql⟩]

open AnalysisTasks in
/-- The settings of the shop, with a baseline file in a directory that does not exist yet. -/
def shopSettings : Settings :=
  ⟨["bills", "old/Orders", "new/orders"], shopLayout, ⟨[], [], []⟩, some "lint/accepted.json", true⟩

/-- The text that gives these settings. -/
def shopConfig : String :=
  "scan.modules = ['bills', 'old/Orders', 'new/orders']\nbaseline.path = 'lint/accepted.json'\n" ++
    "[layout]\nentity_paths = ['src']\nrepository_paths = ['src']\nchangelog_paths = []\n"

/-- The shop with its settings. -/
def shopProject (config source : List Char) : FileTree where
  files := (["shop", "idxlint.toml"], .text config) :: (AnalysisTasks.shopTree source).files
  directories := (AnalysisTasks.shopTree source).directories
  current := []

/-- Where each module of the shop has its finding, the analysis of the project tells them. -/
theorem analyze_shopProject {tree : FileTree}
    (modules : Project.modules tree shopSettings "shop" = .ok AnalysisTasks.shopModules)
    (found : AnalysisTasks.shopModules.map (SourceModule.missingIndexes tree
        AnalysisTasks.shopLayout (.ofNames [] [] [])) =
      AnalysisTasks.shopModules.map fun module => [AnalysisTasks.shopFinding module]) :
    Project.analyze tree shopSettings "shop" =
      .ok (3, AnalysisTasks.shopModules.map AnalysisTasks.shopFinding) := by
  -- The modules are known, and so is what is found on them.
  rw [Project.analyze_eq, modules, ← AnalysisTasks.analyze_shop found]
  rfl

/-- A point in time. -/
def noon : String := "2026-10-19T12:00:00Z"

open AnalysisTasks in
/--
Two spellings are persisted where no file is yet. In a shop in which two findings have one key they
are recorded, and the same findings do not make the check fail that follows.
-/
theorem acceptance_respelled :
    Timestamp.isTime noon = true ∧
    (∃ written accepted,
      persist ⟨[], [], []⟩ "accepted.json" noon (respelled.map MissingIndex.issue) =
        (written, .ok ()) ∧
      load written "accepted.json" = .ok accepted ∧ Accepts respelled accepted) ∧
    let shop := shopProject shopConfig.toList orderSource.toList
    let record : RecordRequest := ⟨"shop", none, none⟩
    let check : CheckRequest := ⟨"shop", none, none, .readable, true⟩
    let written := (record.run shop [] noon).tree
    Project.settings shop [] "shop" none = .ok shopSettings ∧
      (record.run shop [] noon).error = none ∧
      written.place? (record.file shopSettings) ≠ written.place? (Settings.file "shop" none) ∧
      Project.analyze shop shopSettings "shop" = .ok (3, shopModules.map shopFinding) ∧
      ∃ accepted, Accepts (shopModules.map shopFinding) accepted ∧
        check.report written shopSettings = .ok ⟨"shop", 3, shopModules.map shopFinding,
          some (record.file shopSettings, compare (shopModules.map shopFinding) accepted)⟩ ∧
        (check.run written []).error = none := by
  have timely : Timestamp.isTime noon = true := by decide +kernel
  refine ⟨timely, ?file, ?commands⟩
  case file =>
    obtain ⟨accepted, loaded, accepts, -⟩ :=
      (acceptance timely).1 ⟨[], [], []⟩ _ "accepted.json" respelled rfl
    exact ⟨_, accepted, rfl, loaded, accepts⟩
  case commands =>
    intro shop record check written
    -- The texts are put together as lists: to decode them as strings takes far longer.
    have decoded (front back : List Char) :
        (String.ofList front ++ String.ofList back).toList = front ++ back := by simp
    have config : shopConfig.toList = _ := decoded _ _
    have source : orderSource.toList = _ := decoded _ _
    have configured : Project.settings shop [] "shop" none = .ok shopSettings := by
      simp only [shop, config]
      decide +kernel
    have recorded : (record.run shop [] noon).error = none := by
      simp only [shop, config]
      decide +kernel
    have apart : written.place? (record.file shopSettings) ≠
        written.place? (Settings.file "shop" none) := by
      simp only [written, shop, config]
      decide +kernel
    have analyzed : Project.analyze shop shopSettings "shop" =
        .ok (3, shopModules.map shopFinding) := by
      refine analyze_shopProject ?_ ?_
      · simp only [shop, config]
        decide +kernel
      · simp only [shop, config, source]
        decide +kernel
    have again : Project.analyze written shopSettings "shop" =
        .ok (3, shopModules.map shopFinding) := by
      refine analyze_shopProject ?_ ?_
      · simp only [written, shop, config]
        decide +kernel
      · simp only [written, shop, config, source]
        decide +kernel
    obtain ⟨modules, missing, accepted, before, accepts, report, command⟩ :=
      (acceptance timely).2 shop [] shopSettings record check rfl rfl rfl configured recorded
    obtain ⟨rfl, rfl⟩ := Prod.mk.inj (Except.ok.inj (analyzed.symm.trans before))
    obtain ⟨modules, found, after, ran⟩ := command rfl apart
    obtain ⟨rfl, rfl⟩ := Prod.mk.inj (Except.ok.inj (again.symm.trans after))
    have reported := report.trans (congrArg _ again)
    refine ⟨configured, recorded, apart, analyzed, accepted, accepts, reported, ?_⟩
    -- The check has no new finding to fail on.
    have none := congrArg Outcome.error ran
    simpa [CheckRequest.failure?, CheckReport.findings, accepts.nothingNew] using none

end Baseline

end IndexAudit
