import IndexAudit.Files.Tree
import Mathlib.Data.List.Basic

/-! Paths looked up in a file tree: step by step, in a larger tree, and after a file is written. -/

namespace IndexAudit

namespace FileTree

/-- Segments are followed one part after the other. -/
theorem follow?_append (tree : FileTree) (place : Place) (first rest : List (List Char)) :
    tree.follow? place (first ++ rest) =
      (tree.follow? place first).bind fun next => tree.follow? next rest := by
  -- Both sides take the same first step, from which the induction goes on.
  induction first generalizing place with
  | nil => rfl
  | cons segment first ih =>
    simp only [List.cons_append, follow?]
    split
    · exact ih _
    · rfl

/-- Another tree has everything that a tree has, at the same places. -/
structure IsWithin (tree larger : FileTree) : Prop where
  directory : ∀ place, tree.hasDirectory place = true → larger.hasDirectory place = true
  file : ∀ place, tree.hasFile place = true → larger.hasFile place = true

/-- What segments lead to they lead to in a larger tree too. -/
theorem follow?_isWithin {tree larger : FileTree} (within : tree.IsWithin larger)
    {place found : Place} {segments : List (List Char)}
    (led : tree.follow? place segments = some found) :
    larger.follow? place segments = some found := by
  induction segments generalizing place with
  | nil => exact led
  | cons segment rest ih =>
    simp only [follow?] at led ⊢
    split at led
    · -- The directory left and what is entered are there in both trees.
      rename_i present
      simp only [Bool.and_eq_true, Bool.or_eq_true] at present
      obtain ⟨left, entered⟩ := present
      have arrives := entered.imp (within.directory _) (within.file _)
      rw [if_pos (by simp [within.directory _ left, arrives])]
      exact ih led
    · exact absurd led (by simp)

/-- What a path leads to it leads to in a larger tree too, if relative paths start at one place. -/
theorem place?_isWithin {tree larger : FileTree} (within : tree.IsWithin larger)
    (same : larger.current = tree.current) {path : String} {place : Place}
    (led : tree.place? path = some place) : larger.place? path = some place := by
  -- The path is not empty, so both trees follow the same segments from the same place.
  simp only [place?] at led ⊢
  split at led
  · exact absurd led (by simp)
  · rename_i given
    rw [if_neg given, start, same]
    exact follow?_isWithin within led

/-- Directories are added to a tree, and nothing else changes. -/
theorem makeDirectories_eq (tree : FileTree) (place : Place) (segments : List (List Char)) :
    ∃ added, (tree.makeDirectories place segments).1 =
      { tree with directories := added ++ tree.directories } := by
  -- By induction on the segments: each of them adds one directory in front of the others, or none.
  induction segments generalizing tree place with
  | nil => exact ⟨[], rfl⟩
  | cons segment rest ih =>
    rw [makeDirectories]
    split
    · exact ⟨[], rfl⟩
    · split
      · exact ih tree _
      · obtain ⟨added, made⟩ := ih { tree with directories := step place segment ::
          tree.directories } (step place segment)
        exact ⟨added ++ [step place segment], by simp [made]⟩

/-- More directories take nothing away. -/
theorem isWithin_directories (tree : FileTree) (added : List Place) :
    tree.IsWithin { tree with directories := added ++ tree.directories } := by
  constructor
  -- The directories that were there are among the others, and no file is touched.
  case directory =>
    intro place present
    simp only [hasDirectory, Bool.or_eq_true, List.contains_iff_mem, List.mem_append] at present ⊢
    exact present.imp_right .inr
  case file => exact fun _ present => present

/-- Where segments lead somewhere, no directory has to be made for them. -/
theorem makeDirectories_of_follow? {tree : FileTree} {place found : Place}
    {segments : List (List Char)} (led : tree.follow? place segments = some found) :
    (tree.makeDirectories place segments).1 = tree := by
  -- Each step leads to something that exists, and a file ends the walk before anything is made.
  induction segments generalizing place with
  | nil => rfl
  | cons segment rest ih =>
    simp only [follow?] at led
    split at led
    · rename_i present
      simp only [Bool.and_eq_true, Bool.or_eq_true] at present
      rw [makeDirectories]
      split
      · rfl
      · rename_i noFile
        rw [if_pos (present.2.resolve_right noFile)]
        exact ih led
    · exact absurd led (by simp)

/-- A file that is written is found with what was written. -/
theorem content?_put (tree : FileTree) (place : Place) (content : Content) :
    (tree.put place content).content? place = some content := by
  simp [content?, put]

/-- The files at other places stay as they were. -/
theorem content?_put_of_ne (tree : FileTree) {place other : Place} (content : Content)
    (apart : other ≠ place) :
    (tree.put place content).content? other = tree.content? other := by
  -- The search passes over the written file, and only files at its place are left out behind it.
  have kept : ∀ files : List (Place × Content),
      (files.filter (·.1 != place)).lookup other = files.lookup other := by
    intro files
    induction files with
    | nil => rfl
    | cons file rest ih =>
      by_cases same : file.1 = place
      · have missed : (other == file.1) = false := by simpa [same] using apart
        rw [List.filter_cons_of_neg (by simp [same]), ih, List.lookup_cons, missed]
      · rw [List.filter_cons_of_pos (by simp [same]), List.lookup_cons, List.lookup_cons, ih]
  have missed : (other == place) = false := by simpa using apart
  simp [content?, put, List.lookup_cons, missed, kept]

/-- Writing a file takes nothing away. -/
theorem isWithin_put (tree : FileTree) (place : Place) (content : Content) :
    tree.IsWithin (tree.put place content) := by
  constructor
  · exact fun _ present => present
  · intro other present
    -- The place of the file has one now, and any other place has what it had.
    by_cases same : other = place
    · simp [hasFile, same, content?_put]
    · simpa [hasFile, content?_put_of_ne tree content same] using present

/-- Where a file can be put, its path leads to it once it is there. -/
theorem place?_put {tree : FileTree} {path : String} {place : Place}
    (room : tree.filePlace? path = some place) (content : Content) :
    (tree.put place content).place? path = some place := by
  -- The directory is reached as before, and the last segment steps to the new file.
  simp only [filePlace?, Option.bind_eq_bind, Option.bind_eq_some_iff] at room
  obtain ⟨last, isLast, outer, led, room⟩ := room
  split at room
  · exact absurd room (by simp)
  rename_i named
  simp only [Bool.or_eq_true, Bool.not_eq_true', not_or, Bool.not_eq_true, Bool.not_eq_false,
    decide_eq_true_eq] at named
  obtain ⟨⟨moves, notUp⟩, inDirectory⟩ := named
  split at room
  · exact absurd room (by simp)
  obtain rfl := Option.some.inj room
  have split : Path.segments path = (Path.segments path).dropLast ++ [last] :=
    (List.dropLast_append_getLast? last isLast).symm
  have nonempty : path.isEmpty = false := by
    -- The empty path has one segment, which stays put.
    cases empty : path.isEmpty with
    | false => rfl
    | true =>
      obtain rfl := String.isEmpty_iff.mp empty
      obtain rfl : last = [] := by simpa [Path.segments, eq_comm] using isLast
      exact absurd moves (by decide)
  have within := isWithin_put tree (outer ++ [String.ofList last]) content
  have led := follow?_isWithin within led
  have start : (tree.put (outer ++ [String.ofList last]) content).start path = tree.start path :=
    rfl
  have arrives : (tree.put (outer ++ [String.ofList last]) content).hasFile
      (outer ++ [String.ofList last]) = true := by
    simp [hasFile, content?_put]
  have inDirectory := within.directory _ inDirectory
  rw [place?, nonempty, start, split, follow?_append, led]
  simp [follow?, step, moves, notUp, inDirectory, arrives]

/-- What is written at a path is what is read there afterwards. -/
theorem read?_write? {tree written : FileTree} {path : String} {content : Content}
    (done : tree.write? path content = some written) :
    written.existsAt path = true ∧ written.read? path = some content := by
  -- Writing puts the file where its path leads afterwards.
  simp only [write?, Option.bind_eq_bind, Option.bind_eq_some_iff, Option.some.injEq] at done
  obtain ⟨place, room, rfl⟩ := done
  have found := place?_put room content
  exact ⟨by simp [existsAt, found], by simp [read?, found, content?_put]⟩

end FileTree

end IndexAudit
