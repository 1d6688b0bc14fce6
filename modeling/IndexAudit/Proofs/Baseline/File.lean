import IndexAudit.Baseline.Comparison
import IndexAudit.Baseline.File
import IndexAudit.Proofs.Files.Place
import IndexAudit.Proofs.Json.Indented
import IndexAudit.Proofs.Keyed

/-!
Findings beside accepted issues, and the file that these are kept in.

Each finding is either new or known, and each accepted key that is not found any more is told once.
What is written into the file is what is read from it.
-/

namespace IndexAudit

/-! Findings beside accepted issues. -/

/-- Keys with the same parts are the same key. -/
theorem IssueKey.parts_injective {a b : IssueKey} (same : a.parts = b.parts) : a = b := by
  cases a
  cases b
  simpa [IssueKey.parts] using same

/-- A comparison parts the findings by the accepted keys, and tells what is accepted for nothing. -/
structure BaselineComparison.IsSplit (current : List MissingIndex) (accepted : List Issue)
    (split : BaselineComparison) : Prop where
  /-- All findings are in the order of their keys, those of one key as they came. -/
  sorted : Keyed.IsStableSort (·.key.parts) current split.current
  /-- The new ones keep that order, and no issue accepts them. -/
  newInOrder : split.newIssues.Sublist split.current
  newUnaccepted : ∀ finding ∈ split.newIssues, ∀ issue ∈ accepted, issue.key ≠ finding.key
  /-- So do the known ones, and some issue accepts each of them. -/
  existingInOrder : split.existingIssues.Sublist split.current
  existingAccepted : ∀ finding ∈ split.existingIssues, ∃ issue ∈ accepted, issue.key = finding.key
  /-- Each finding is as often in one of the two as it was found. -/
  whole : (split.newIssues ++ split.existingIssues).Perm current
  /-- The resolved issues strictly increase. -/
  resolvedInOrder : split.resolvedIssues.Pairwise fun a b => a.key.parts < b.key.parts
  /-- They are the first accepted ones of the keys that are not found. -/
  resolved : ∀ issue, issue ∈ split.resolvedIssues ↔
    Keyed.IsFirst Issue.key accepted issue ∧ ∀ finding ∈ current, finding.key ≠ issue.key

namespace Baseline

/-- Issues are kept where they are the first of their key. -/
@[simp] theorem mem_distinct {issues : List Issue} {issue : Issue} :
    issue ∈ distinct issues ↔ Keyed.IsFirst Issue.key issues issue := by
  simp [distinct, Keyed.mem_firsts]

/-- No key is kept twice, so the kept issues strictly increase. -/
theorem distinct_ordered (issues : List Issue) :
    (distinct issues).Pairwise fun a b => a.key.parts < b.key.parts := by
  -- The keys are distinct, and keys with the same parts are the same.
  apply Keyed.sort_strict
  have once := Keyed.firsts_keys_nodup Issue.key issues
  rw [List.nodup_iff_pairwise_ne, List.pairwise_map] at once ⊢
  exact once.imp fun apart same => apart (IssueKey.parts_injective same)

/-- What is kept once is kept again, and stays in its place. -/
theorem distinct_distinct (issues : List Issue) : distinct (distinct issues) = distinct issues := by
  -- Strictly increasing issues have distinct keys, and are sorted already.
  have ordered := distinct_ordered issues
  have once : ((distinct issues).map Issue.key).Nodup := by
    rw [List.nodup_iff_pairwise_ne, List.pairwise_map]
    exact ordered.imp fun less same => absurd (same ▸ less) (lt_irrefl _)
  rw [distinct, Keyed.firsts_eq_self once]
  exact Keyed.sort_eq_self _ (ordered.imp le_of_lt)

/-- Whether a key is accepted. -/
theorem contains_key_iff {issues : List Issue} {key : IssueKey} :
    (issues.map Issue.key).contains key = true ↔ ∃ issue ∈ issues, issue.key = key := by
  simp

/-- Comparing findings with accepted issues splits them. -/
theorem compare_isSplit (current : List MissingIndex) (accepted : List Issue) :
    (compare current accepted).IsSplit current accepted := by
  -- New and known findings are two filters of the sorted ones.
  have sorted := Keyed.sort_isStableSort (fun finding : MissingIndex => finding.key.parts) current
  have key_together : ∀ a b : Issue, a.key = b.key →
      (!(current.map MissingIndex.key).contains a.key) =
        !(current.map MissingIndex.key).contains b.key := by
    intro a b same
    rw [same]
  constructor
  case sorted => exact sorted
  case newInOrder => exact List.filter_sublist
  case existingInOrder => exact List.filter_sublist
  case newUnaccepted =>
    intro finding member issue isAccepted same
    have unknown := (List.mem_filter.mp member).2
    rw [contains_key_iff.mpr ⟨issue, isAccepted, same⟩] at unknown
    exact Bool.noConfusion unknown
  case existingAccepted =>
    intro finding member
    exact contains_key_iff.mp (List.mem_filter.mp member).2
  case whole =>
    -- The two filters are complementary, and sorting moves findings without losing any.
    refine List.perm_append_comm.trans (List.Perm.trans ?_ sorted.perm)
    exact List.filter_append_perm _ _
  case resolvedInOrder => exact distinct_ordered _
  case resolved =>
    -- All issues of a key are resolved together, so the first of them is the first accepted one.
    intro issue
    simp only [compare, mem_distinct, Keyed.isFirst_filter key_together]
    simp

end Baseline

/-! The file of accepted issues. -/

open JsonValue

/-- The document of a baseline file, as it is written at a time. -/
def Baseline.document (time : String) (issues : List Issue) : JsonValue :=
  .ofMembers [("version", .ofNat Baseline.version), ("generatedAt", .ofString time),
    ("issues", .array (issues.map Issue.document))]

/-- The document of an issue is read as the issue, whatever characters are in it. -/
theorem Baseline.issueOf?_document (issue : Issue) :
    Baseline.issueOf? issue.document = some issue := by
  -- Each field is the only member of its name.
  simp [issueOf?, Issue.document, ofMembers, fields?, onlyMember?, ofString, text?]

namespace Baseline

/-- The documents of issues are read as the issues. -/
theorem issuesOf?_documents (issues : List Issue) :
    issuesOf? (.array (issues.map Issue.document)) = some issues := by
  -- Issue by issue, each document is read as its issue.
  simp only [issuesOf?]
  induction issues with
  | nil => rfl
  | cons issue rest ih => simp [issueOf?_document, ih]

/-- The document of a baseline is read as its issues, if it is written at a point in time. -/
theorem ofDocument?_document {time : String} (timely : Timestamp.isTime time = true)
    (issues : List Issue) : ofDocument? (document time issues) = some ⟨version, issues⟩ := by
  -- Its fields are told by their names, and each value is in the form that its field asks for.
  have number : versionOf? (.ofNat version) = some version := by decide
  simp [ofDocument?, document, ofMembers, fields?, onlyMember?, ofString, text?, timely, number,
    issuesOf?_documents]

/-- All strings in the documents of issues have texts. -/
theorem itemsExact_documents (issues : List Issue) :
    ItemsExact (issues.map Issue.document) := by
  -- Each document has three strings of its own, and nothing else in it could be inexact.
  induction issues with
  | nil => trivial
  | cons issue rest ih =>
    simp [ItemsExact, ih, Issue.document, ofMembers, ofString, IsExact, MembersExact]

/-- The document of a baseline is one that is read back as it is written. -/
theorem isExact_document (time : String) (issues : List Issue) :
    (document time issues).IsExact := by
  -- The only number in it is the version, which is written as one digit.
  have plain : JsonNumber.IsPlain ⟨false, Nat.toDigits 10 version, [], none⟩ := by
    have one : Nat.toDigits 10 version = ['1'] := by decide
    rw [one]
    refine ⟨rfl, rfl, rfl, List.forall_mem_singleton.mpr rfl, by simp, ?_⟩
    intro rest leading
    exact absurd (List.cons.inj leading).1 (by decide)
  simp [document, ofMembers, ofString, ofNat, IsExact, MembersExact, plain, itemsExact_documents]

/-- The text of a baseline is read as its issues, one of each key. -/
theorem ofText_text {time : String} (timely : Timestamp.isTime time = true) (path : String)
    (issues : List Issue) : ofText path (text time issues).toList = .ok (distinct issues) := by
  -- The document is read back whole, its version is known, and its issues are distinct already.
  have written : text time issues = (document time (distinct issues)).indented ++ "\n" := rfl
  rw [ofText, written, ofText?_indented (isExact_document time _)]
  simp [ofDocument?_document timely, distinct_distinct]

/-- A tree with the directories that are made around a file before it is written. -/
def withHousing (tree : FileTree) (path : String) : FileTree :=
  match Path.parent? path with
  | none => tree
  | some parent => if parent.isEmpty then tree else (tree.makeDirectoryPath parent).1

/-- Around a file only directories are made. -/
theorem withHousing_eq (tree : FileTree) (path : String) :
    ∃ added, withHousing tree path = { tree with directories := added ++ tree.directories } := by
  -- Either the directory around needs no path, or it is made step by step.
  rw [withHousing]
  split
  · exact ⟨[], rfl⟩
  · split
    · exact ⟨[], rfl⟩
    · exact FileTree.makeDirectories_eq tree _ _

/-- Nothing has to be made around a name in a directory that exists. -/
theorem withHousing_join {tree : FileTree} {base name : String} {outer : Place}
    (led : tree.place? base = some outer) (isName : Path.IsName name) :
    withHousing tree (Path.join base name) = tree := by
  -- The parent of the path is that directory, so all its segments lead somewhere.
  rw [withHousing]
  split
  · rfl
  · rename_i parent isParent
    split
    · rfl
    · rename_i given
      exact FileTree.makeDirectoryPath_parent_join led isName isParent
        (by simpa using given)

/-- Issues are persisted only if writing the file goes well in the end. -/
theorem write?_of_persist {tree written : FileTree} {path time : String} {issues : List Issue}
    (persisted : persist tree path time issues = (written, .ok ())) :
    (withHousing tree path).write? path (.text (text time issues).toList) = some written := by
  rw [persist] at persisted
  split at persisted
  rename_i around made housed
  have same : withHousing tree path = around := by
    rw [withHousing]
    cases parent : Path.parent? path with
    | none => exact (Prod.mk.inj (by simpa [parent] using housed)).1
    | some outer =>
      simp only [parent] at housed ⊢
      split at housed
      · rename_i empty
        rw [if_pos empty, (Prod.mk.inj housed).1]
      · rename_i given
        rw [if_neg given, housed]
  rw [same]
  -- Whatever directories were made before, the last step decides.
  split at persisted
  · simp at persisted
  · split at persisted
    · simp at persisted
    · rename_i after done
      obtain ⟨rfl, -⟩ := Prod.mk.inj persisted
      exact done

/-- A baseline that was written is loaded from the same path, one issue of each key. -/
theorem load_persist {tree written : FileTree} {path time : String} {issues : List Issue}
    (timely : Timestamp.isTime time = true)
    (persisted : persist tree path time issues = (written, .ok ())) :
    written.existsAt path = true ∧ load written path = .ok (distinct issues) := by
  -- Writing goes well only if reading finds the file, and its text is read as the issues.
  obtain ⟨found, read⟩ := FileTree.read?_write? (write?_of_persist persisted)
  exact ⟨found, by simp [load, found, read, Content.text?, ofText_text timely]⟩

end Baseline

end IndexAudit
