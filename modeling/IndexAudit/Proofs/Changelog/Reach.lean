import IndexAudit.Proofs.Changelog.Reference

/-!
The changelogs that are read for a path: those that references lead to, each of them once, in the
order in which they are reached.
-/

namespace IndexAudit

namespace Changelog

/-- The columns that files index, in order. -/
def columns (files : List ChangelogFile) : List IndexedColumn :=
  files.flatMap (·.scanned.columns)

/-- The columns of a file come before those of the files behind it. -/
@[simp] theorem columns_cons (file : ChangelogFile) (files : List ChangelogFile) :
    columns (file :: files) = file.scanned.columns ++ columns files :=
  List.flatMap_cons

/-- The columns of files come before those of the files behind them. -/
@[simp] theorem columns_append (first second : List ChangelogFile) :
    columns (first ++ second) = columns first ++ columns second :=
  List.flatMap_append

/-- Paths that references lead to, one after the other, from that of the first changelog on. -/
inductive Leads (tree : FileTree) (base root : String) : String → Prop
  | root : Leads tree base root root
  | next {path target : String} {file : ChangelogFile} (led : Leads tree base root path)
      (found : read? tree path = some file) (refers : target ∈ file.next tree base) :
      Leads tree base root target

/-- Places among which are the first changelog's and, with a file's, those it refers to. -/
structure IsClosed (tree : FileTree) (base root : String) (files : List ChangelogFile)
    (within : Place → Prop) : Prop where
  root : ∀ file, read? tree root = some file → within file.place
  next : ∀ file ∈ files, within file.place → ∀ target ∈ file.next tree base,
    ∀ other, read? tree target = some other → within other.place

/-- What is read from a first changelog on. -/
structure IsReading (tree : FileTree) (root : String) (files : List ChangelogFile) : Prop where
  /-- Each file is as the path leads to it by which it is read. -/
  asRead : ∀ file ∈ files, read? tree file.path = some file
  /-- Files are read depth first, where they are first reached. -/
  order : Traversal tree ((Path.parent? root).getD ".") [] [root] files
  once : (files.map (·.place)).Nodup
  /-- Their places are the least that are closed. -/
  least : ∀ place, place ∈ files.map (·.place) ↔
    ∀ within, IsClosed tree ((Path.parent? root).getD ".") root files within → within place
  /-- If those to whole directories have names, the places are those that any paths lead to. -/
  reached : (∀ file ∈ files, ∀ reference ∈ file.scanned.references,
      reference.kind = .includeAll → reference.below ≠ "") →
    ∀ place, place ∈ files.map (·.place) ↔
      ∃ path, Leads tree ((Path.parent? root).getD ".") root path ∧
        tree.fileAt? path = some place

/-- A path leads to no file, or to one that is no changelog of its format. -/
def IsLost (tree : FileTree) (path : String) : Prop :=
  ∀ content, tree.read? path = some content → scan? path content.lossyText = none

/-- A path that leads to a file reads it. -/
theorem read?_of_fileAt? {tree : FileTree} {path : String} {place : Place}
    (led : tree.fileAt? path = some place) :
    ∃ file, read? tree path = some file ∧ file.place = place := by
  -- Any content is read; one that is no changelog declares nothing.
  obtain ⟨led, present⟩ := FileTree.fileAt?_eq_some.mp led
  obtain ⟨content, has⟩ := Option.isSome_iff_exists.mp present
  exact ⟨⟨path, place, scanFile path content⟩, by simp [read?, led, has], rfl⟩

/-- A traversal from the first changelog visits the least closed places. -/
theorem mem_places_iff {tree : FileTree} {base root : String} {files : List ChangelogFile}
    (traversal : Traversal tree base [] [root] files) (place : Place) :
    place ∈ files.map (·.place) ↔
      ∀ within, IsClosed tree base root files within → within place := by
  constructor
  · -- A closed set has every place that a pending path may lead to.
    intro member within closed
    obtain ⟨file, isFile, rfl⟩ := List.mem_map.mp member
    have inside := traversal.within
      (fun path => ∀ file, read? tree path = some file → within file.place)
      (by simpa using closed.root)
      (fun file isFile here target isTarget next found => closed.next file isFile
        (here file (traversal.asRead file isFile)) target isTarget next found)
    -- A visited file is what its own path leads to.
    exact inside file isFile file (traversal.asRead file isFile)
  · -- What is visited is closed itself.
    intro least
    refine least (· ∈ files.map (·.place)) ⟨fun file found => ?_, ?_⟩
    · simpa using traversal.covers root (by simp) file found
    · intro file isFile _ target isTarget other found
      simpa using traversal.closed file isFile target isTarget other found

/-- Whether a place that declares nothing is still unread makes no difference to the columns. -/
theorem columns_walk_erase {tree : FileTree} (base : String) {place : Place}
    (silent : ∀ path file, read? tree path = some file → file.place = place →
      file.scanned = ⟨[], []⟩) {unread : List Place} (distinct : unread.Nodup)
    (pending : List String) :
    columns (walk tree base (unread.erase place) pending) =
      columns (walk tree base unread pending) := by
  -- Both walks take the same steps, but for the one that reads the file at the place.
  by_cases listed : place ∈ unread
  case neg => rw [List.erase_of_not_mem listed]
  case pos =>
  cases pending with
  | nil => simp
  | cons path rest =>
    rw [walk_cons, walk_cons]
    cases found : read? tree path with
    | none => exact columns_walk_erase base silent distinct rest
    | some file =>
      by_cases same : file.place = place
      · -- The file is read on one side only, and adds nothing there.
        have nothing := silent path file found same
        obtain rfl := same
        have follows : file.next tree base = [] := by simp [ChangelogFile.next, nothing]
        simp [distinct.not_mem_erase, listed, follows, nothing]
      · by_cases fresh : file.place ∈ unread
        · have shorter := erase_shorter fresh
          have behind := columns_walk_erase base silent (distinct.erase file.place)
            (file.next tree base ++ rest)
          rw [List.erase_comm] at behind
          simp only [(List.mem_erase_of_ne same).mpr fresh, fresh, if_true, columns_cons, behind]
        · have missed : file.place ∉ unread.erase place := fun member =>
            fresh (List.mem_of_mem_erase member)
          simp only [if_neg fresh, if_neg missed]
          exact columns_walk_erase base silent distinct rest
termination_by (unread.length, pending.length)

section WellFormed

variable {tree : FileTree} (wellFormed : tree.WellFormed)
include wellFormed

/-- A traversal visits what any paths lead to, if references to whole directories have names. -/
theorem mem_places_of_leads {base root : String} {files : List ChangelogFile}
    (traversal : Traversal tree base [] [root] files)
    (named : ∀ file ∈ files, ∀ reference ∈ file.scanned.references,
      reference.kind = .includeAll → reference.below ≠ "")
    {path : String} (led : Leads tree base root path) {file : ChangelogFile}
    (found : read? tree path = some file) : file.place ∈ files.map (·.place) := by
  -- The induction is on how the path is reached; that a place is visited is what carries it.
  induction led generalizing file with
  | root => simpa using traversal.covers root (by simp) file found
  | @next path target source led isSource refers ih =>
    -- The source was visited by a path of its own, by which it refers to the same place.
    obtain ⟨visited, isVisited, same⟩ := List.mem_map.mp (ih isSource)
    have asRead := traversal.asRead visited isVisited
    obtain ⟨reference, isReference, isTarget⟩ := List.mem_flatMap.mp refers
    rw [read?_path isSource] at isTarget
    rw [← references_eq wellFormed asRead isSource same] at isReference
    -- So the target has a counterpart among what the visited file refers to.
    have places := targets_places wellFormed base (fileAt?_of_read? isSource ▸ same ▸
      fileAt?_of_read? asRead) (by simp [fileAt?_of_read? asRead])
      (named visited isVisited reference isReference)
    have member : tree.place? target ∈ (targets tree base path reference).map tree.place? :=
      List.mem_map.mpr ⟨target, isTarget, rfl⟩
    rw [← places] at member
    obtain ⟨other, isOther, leads⟩ := List.mem_map.mp member
    have refers : other ∈ visited.next tree base :=
      List.mem_flatMap.mpr ⟨reference, isReference, isOther⟩
    have arrives : tree.fileAt? other = some file.place := by
      rw [FileTree.fileAt?, leads]
      exact fileAt?_of_read? found
    obtain ⟨again, foundAgain, sameAgain⟩ := read?_of_fileAt? arrives
    simpa [sameAgain] using traversal.closed visited isVisited other refers again foundAgain

/-- A file that is lost by one path declares nothing, by whatever path it is read. -/
theorem scanned_of_isLost {path other : String} {file again : ChangelogFile}
    (lost : IsLost tree path) (found : read? tree path = some file)
    (foundAgain : read? tree other = some again) (same : again.place = file.place) :
    again.scanned = ⟨[], []⟩ := by
  have ending := FileTree.hasExtension_eq wellFormed (fileAt?_of_read? found)
    (same ▸ fileAt?_of_read? foundAgain)
  simp only [read?, Option.bind_eq_bind, Option.bind_eq_some_iff, Option.some.injEq]
    at found foundAgain
  obtain ⟨place, led, content, has, rfl⟩ := found
  obtain ⟨placeAgain, -, contentAgain, hasAgain, rfl⟩ := foundAgain
  obtain rfl : placeAgain = place := same
  obtain rfl := Option.some.inj (has.symm.trans hasAgain)
  -- Both paths read the same text in the same format.
  have malformed : scan? path content.lossyText = none :=
    lost content (by simp [FileTree.read?, led, has])
  have references := scan?_references ending content.lossyText
  rw [malformed, Option.map_none, eq_comm, Option.map_eq_none_iff] at references
  simp [scanFile, references]

/-- Paths to files that are missing or malformed add no columns, and take none away. -/
theorem columns_walk_isLost (base : String) {unread : List Place} (distinct : unread.Nodup)
    (before : List String) {lost : List String} (after : List String)
    (isLost : ∀ path ∈ lost, IsLost tree path) :
    columns (walk tree base unread (before ++ lost ++ after)) =
      columns (walk tree base unread (before ++ after)) := by
  rw [List.append_assoc, walk_append tree base distinct before (lost ++ after),
    walk_append tree base distinct before after, columns_append, columns_append,
    List.append_cancel_left_eq]
  -- What is read before is the same, so only the places that it leaves unread matter.
  have distinct := unreadAfter_nodup distinct (walk tree base unread before)
  -- Those differ by the places of files that declare nothing, which do not matter.
  generalize unreadAfter unread (walk tree base unread before) = left at distinct
  induction lost generalizing left with
  | nil => rfl
  | cons path lost ih =>
    obtain ⟨here, others⟩ := List.forall_mem_cons.mp isLost
    rw [List.cons_append, walk_cons]
    cases found : read? tree path with
    | none => exact ih others left distinct
    | some file =>
      by_cases fresh : file.place ∈ left
      · have nothing := scanned_of_isLost wellFormed here found found rfl
        have follows : file.next tree base = [] := by simp [ChangelogFile.next, nothing]
        have erased := columns_walk_erase base (fun _ _ again same =>
          scanned_of_isLost wellFormed here found again same) distinct after
        simp only [if_pos fresh, follows, List.nil_append, columns_cons, nothing]
        rw [ih others _ (distinct.erase file.place), erased]
      · simp only [if_neg fresh]
        exact ih others left distinct

/-- What a traversal from the first changelog visits is what is to be read. -/
theorem isReading_of_traversal {root : String} {files : List ChangelogFile}
    (traversal : Traversal tree ((Path.parent? root).getD ".") [] [root] files) :
    IsReading tree root files := by
  constructor
  case asRead => exact traversal.asRead
  case order => exact traversal
  case once => exact traversal.once
  case least => exact mem_places_iff traversal
  case reached =>
    intro named place
    constructor
    · -- Each file was found by a path that leads to it from the first one on.
      intro member
      obtain ⟨file, isFile, rfl⟩ := List.mem_map.mp member
      have led := traversal.within (Leads tree ((Path.parent? root).getD ".") root)
        (by simpa using Leads.root)
        (fun file isFile led target refers => led.next (traversal.asRead file isFile) refers)
      exact ⟨file.path, led file isFile, fileAt?_of_read? (traversal.asRead file isFile)⟩
    · rintro ⟨path, led, arrives⟩
      obtain ⟨file, found, rfl⟩ := read?_of_fileAt? arrives
      exact mem_places_of_leads wellFormed traversal named led found

end WellFormed

/-- The files that are read for a path are a traversal from the changelog that it stands for. -/
theorem files_traversal {tree : FileTree} (wellFormed : tree.WellFormed) {path root : String}
    (starts : root? tree path = some root) :
    Traversal tree ((Path.parent? root).getD ".") [] [root] (files tree path) := by
  -- At first the places of all files are unread, and none was visited.
  have agrees : Agrees tree (tree.files.map (·.1)) [] := by
    intro path file found
    have present := (FileTree.fileAt?_eq_some.mp (fileAt?_of_read? found)).2
    obtain ⟨entry, isEntry, same⟩ := FileTree.hasFile_iff.mp present
    have listed : file.place ∈ tree.files.map (·.1) := List.mem_map.mpr ⟨entry, isEntry, same⟩
    simp [listed]
  rw [files, starts]
  exact walk_traversal tree _ wellFormed.distinct agrees [root]

/--
In a well-formed tree, the changelogs that are read for a path are those that references lead to
from the one it stands for, each once and depth first, and the columns are theirs in this order;
paths to files that are missing or malformed make no difference to the columns of the others.
-/
theorem files_isReading {tree : FileTree} (wellFormed : tree.WellFormed) (path : String) :
    (root? tree path = none → files tree path = []) ∧
    (∀ root, root? tree path = some root → IsReading tree root (files tree path)) ∧
    indexedColumns tree path = columns (files tree path) ∧
    ∀ (base : String) (unread : List Place) (before lost after : List String), unread.Nodup →
      (∀ target ∈ lost, IsLost tree target) →
        columns (walk tree base unread (before ++ lost ++ after)) =
          columns (walk tree base unread (before ++ after)) := by
  refine ⟨?absent, ?present, rfl, ?lost⟩
  case absent =>
    intro absent
    rw [files, absent]
  -- That a file is read exactly when it is reached is the invariant of the traversal.
  case present =>
    intro root present
    exact isReading_of_traversal wellFormed (files_traversal wellFormed present)
  case lost =>
    intro base unread before lost after distinct isLost
    exact columns_walk_isLost wellFormed base distinct before after isLost

/-- Changelogs that refer to themselves, to each other, to none, and to one that is malformed. -/
def circular : FileTree where
  files :=
    [(["db", "main.xml"], .text ("<databaseChangeLog><include file=\"main.xml\"/>" ++
      "<include file=\"none.xml\"/><includeAll path=\"parts\"/></databaseChangeLog>").toList),
    (["db", "parts", "a.xml"], .text ("<databaseChangeLog><includeAll path=\".\" " ++
      "relativeToChangelogFile=\"true\"/></databaseChangeLog>").toList),
    (["db", "parts", "b.xml"], .text "<databaseChangeLog>".toList),
    (["db", "parts", "c.sql"], .text "CREATE INDEX i ON orders (state);".toList)]
  directories := [["db"], ["db", "parts"]]
  current := []

/-- Circular changelogs are read, and a malformed one among them is as good as none. -/
theorem files_isReading_circular :
    circular.WellFormed ∧ root? circular "/db/main.xml" = some "/db/main.xml" ∧
    IsReading circular "/db/main.xml" (files circular "/db/main.xml") ∧
    IsLost circular "/db/parts/b.xml" ∧
    columns (walk circular "/db" (circular.files.map (·.1))
        ["/db/parts/b.xml", "/db/parts/c.sql"]) =
      columns (walk circular "/db" (circular.files.map (·.1)) ["/db/parts/c.sql"]) := by
  have wellFormed : circular.WellFormed := by constructor <;> decide
  have root : root? circular "/db/main.xml" = some "/db/main.xml" := by decide +kernel
  -- The malformed file is there, but cannot be scanned.
  have lost : IsLost circular "/db/parts/b.xml" := by
    have malformed : (circular.read? "/db/parts/b.xml").all
        (fun content => (scan? "/db/parts/b.xml" content.lossyText).isNone) = true := by
      decide +kernel
    intro content read
    simpa [read] using malformed
  obtain ⟨-, reading, -, indifferent⟩ := files_isReading wellFormed "/db/main.xml"
  exact ⟨wellFormed, root, reading _ root, lost,
    indifferent "/db" _ [] ["/db/parts/b.xml"] ["/db/parts/c.sql"] wellFormed.distinct
      (by simpa using lost)⟩

end Changelog

end IndexAudit
