import IndexAudit.Proofs.Files.Path
import IndexAudit.Proofs.Files.Tree

/-!
The places that paths lead to in a well-formed file tree.

Where a path leads to a file, the directory it lies in and the ending of its name are those of the
place, however the path is spelled.
-/

namespace IndexAudit

namespace FileTree

/-- A tree as a file system has it: each entry is once in a directory, and a file or a directory. -/
structure WellFormed (tree : FileTree) : Prop where
  distinct : (tree.files.map (·.1)).Nodup
  named : ∀ file ∈ tree.files, ∀ name ∈ file.1, Path.IsName name
  apart : ∀ file ∈ tree.files, tree.hasDirectory file.1 = false
  housed : ∀ file ∈ tree.files, tree.hasDirectory file.1.dropLast = true
  nested : ∀ directory ∈ tree.directories, tree.hasDirectory directory.dropLast = true

/-- The place of the file that a path leads to. -/
def fileAt? (tree : FileTree) (path : String) : Option Place :=
  (tree.place? path).filter tree.hasFile

/-- A path leads to a file at a place if it leads there, and the place has one. -/
theorem fileAt?_eq_some {tree : FileTree} {path : String} {place : Place} :
    tree.fileAt? path = some place ↔ tree.place? path = some place ∧ tree.hasFile place = true := by
  simp [fileAt?, Option.filter_eq_some_iff]

/-- The places that have a file are those of the files there are. -/
theorem hasFile_iff {tree : FileTree} {place : Place} :
    tree.hasFile place = true ↔ ∃ file ∈ tree.files, file.1 = place := by
  rw [hasFile, content?]
  -- A file is looked up by the first entry of its place.
  induction tree.files with
  | nil => simp
  | cons file rest ih =>
    by_cases same : place = file.1
    · simp [same]
    · have missed : (place == file.1) = false := by simpa using same
      rw [List.lookup_cons, missed]
      simp only [ih, List.mem_cons, exists_eq_or_imp, Ne.symm same, false_or]

section WellFormed

variable {tree : FileTree} (wellFormed : tree.WellFormed)
include wellFormed

/-- The place of a file is none of a directory. -/
theorem hasDirectory_of_hasFile {place : Place} (present : tree.hasFile place = true) :
    tree.hasDirectory place = false := by
  -- The place is that of a file, and no file of such a tree is a directory.
  obtain ⟨file, member, rfl⟩ := hasFile_iff.mp present
  exact wellFormed.apart file member

/-- A directory lies in a directory. -/
theorem hasDirectory_dropLast {place : Place} (present : tree.hasDirectory place = true) :
    tree.hasDirectory place.dropLast = true := by
  -- The top lies in itself.
  by_cases top : place = []
  · simp [top, hasDirectory]
  · have member : place ∈ tree.directories := by simpa [hasDirectory, top] using present
    exact wellFormed.nested place member

/-- All places on the way to a directory are directories. -/
theorem hasDirectory_of_append {outer inner : Place}
    (present : tree.hasDirectory (outer ++ inner) = true) : tree.hasDirectory outer = true := by
  -- The names behind the outer place are taken off one by one from the end.
  induction inner using List.reverseRecOn with
  | nil => simpa using present
  | append_singleton inner name ih =>
    have around := hasDirectory_dropLast wellFormed present
    rw [← List.append_assoc, List.dropLast_concat] at around
    exact ih around

/-- A place on the way to a file is a directory. -/
theorem hasDirectory_of_hasFile_append {outer : Place} {name : String} {inner : Place}
    (present : tree.hasFile (outer ++ name :: inner) = true) : tree.hasDirectory outer = true := by
  -- The file lies in a directory, and the place is on the way to that.
  obtain ⟨file, member, same⟩ := hasFile_iff.mp present
  have around := wellFormed.housed file member
  rw [same, List.dropLast_append_of_ne_nil (by simp)] at around
  exact hasDirectory_of_append wellFormed around

end WellFormed

/-- Where segments that stay put lead, there they started. -/
theorem follow?_stay_eq {tree : FileTree} {place found : Place} {stays : List (List Char)}
    (stay : ∀ segment ∈ stays, Path.staysPut segment = true)
    (led : tree.follow? place stays = some found) : found = place := by
  -- Each of them leads to where it is followed from, if it can be followed at all.
  induction stays with
  | nil => exact (Option.some.inj led).symm
  | cons segment stays ih =>
    obtain ⟨stays, others⟩ := List.forall_mem_cons.mp stay
    simp only [follow?, step, stays, if_true] at led
    split at led
    · exact ih others led
    · exact absurd led (by simp)

/-- A path that leads somewhere is not empty. -/
theorem ne_empty_of_place? {tree : FileTree} {path : String} {place : Place}
    (led : tree.place? path = some place) : path ≠ "" := by
  -- The empty path is refused.
  rintro rfl
  simp [place?] at led

/-- What a path leads to its segments lead to. -/
theorem follow?_of_place? {tree : FileTree} {path : String} {place : Place}
    (led : tree.place? path = some place) :
    tree.follow? (tree.start path) (Path.segments path) = some place := by
  -- Only the empty path is refused before its segments are followed.
  have given : path.isEmpty = false := by simpa using ne_empty_of_place? led
  simpa [place?, given] using led

/-- A path under another one has its own segments behind some that lead where that one leads. -/
theorem segments_join_led {tree : FileTree} {base path : String} {outer : Place}
    (led : tree.place? base = some outer) (relative : Path.isAbsolute path = false) :
    ∃ before, Path.segments (Path.join base path) = before ++ Path.segments path ∧
      tree.follow? (tree.start (Path.join base path)) before = some outer := by
  have given := ne_empty_of_place? led
  have start : tree.start (Path.join base path) = tree.start base := by
    rw [FileTree.start, FileTree.start, Path.isAbsolute_join given relative]
  rw [start]
  have led := follow?_of_place? led
  by_cases ends : base.toList.getLast? = some '/'
  · -- The empty segment behind the slash stays put.
    obtain ⟨inner, split⟩ := List.getLast?_eq_some_iff.mp ends
    obtain ⟨around, below⟩ := Path.segments_join_slash split relative
    rw [around, follow?_append] at led
    obtain ⟨place, inside, stayed⟩ := Option.bind_eq_some_iff.mp led
    obtain rfl := follow?_stay_eq (by simp [Path.staysPut]) stayed
    exact ⟨_, below, inside⟩
  · exact ⟨_, Path.segments_join given relative ends, led⟩

/-- A path under that of a directory is followed from there. -/
theorem place?_join {tree : FileTree} {base path : String} {outer : Place}
    (led : tree.place? base = some outer) (relative : Path.isAbsolute path = false) :
    tree.place? (Path.join base path) = tree.follow? outer (Path.segments path) := by
  obtain ⟨before, cut, inside⟩ := segments_join_led led relative
  have joined : (Path.join base path).isEmpty = false := by
    simpa using Path.join_ne_empty (ne_empty_of_place? led) relative
  -- What stands in front of the path's own segments leads to the directory.
  rw [place?, joined, cut, follow?_append, inside]
  rfl

/-- The path of a name in a directory leads to the entry of that name, if there is one. -/
theorem place?_join_name {tree : FileTree} {base name : String} {outer : Place}
    (led : tree.place? base = some outer) (isName : Path.IsName name) :
    tree.place? (Path.join base name) =
      if tree.hasDirectory outer &&
          (tree.hasDirectory (outer ++ [name]) || tree.hasFile (outer ++ [name])) then
        some (outer ++ [name])
      else none := by
  rw [place?_join led isName.isAbsolute_eq, isName.segments_eq]
  -- A name is one segment, and leads downwards.
  simp [follow?, step, isName.moves, isName.downwards]

/-- The segments of a path to a file are those of its directory and its name. -/
theorem segments_of_fileAt? {tree : FileTree} (wellFormed : tree.WellFormed) {path : String}
    {place : Place} (led : tree.fileAt? path = some place) :
    ∃ before name outer, Path.segments path = before ++ [name] ∧ Path.staysPut name = false ∧
      name ≠ ['.', '.'] ∧ tree.follow? (tree.start path) before = some outer ∧
      tree.hasDirectory outer = true ∧ place = outer ++ [String.ofList name] := by
  obtain ⟨led, present⟩ := fileAt?_eq_some.mp led
  have file := hasDirectory_of_hasFile wellFormed present
  have led := follow?_of_place? led
  -- All segments but the last lead to a directory.
  have split := List.dropLast_append_getLast (List.splitOn_ne_nil '/' path.toList)
  change _ = Path.segments path at split
  generalize List.dropLast _ = before at split
  generalize List.getLast _ _ = name at split
  rw [← split, follow?_append] at led
  obtain ⟨outer, inside, last⟩ := Option.bind_eq_some_iff.mp led
  simp only [follow?] at last
  split at last
  case isFalse => exact absurd last (by simp)
  case isTrue arrives =>
    obtain rfl := Option.some.inj last
    have directory : tree.hasDirectory outer = true := (Bool.and_eq_true _ _ ▸ arrives).1
    -- From a directory, only a name leads to what is none.
    have moves : Path.staysPut name = false := by
      by_contra stays
      rw [Bool.not_eq_false] at stays
      simp [step, stays, directory] at file
    have downwards : name ≠ ['.', '.'] := by
      rintro rfl
      simp [step, moves, hasDirectory_dropLast wellFormed directory] at file
    exact ⟨before, name, outer, split.symm, moves, downwards, inside, directory,
      by simp [step, moves, downwards]⟩

/--
The directory that a path lies in, by the segments in front of its last one: it has a path that leads
there, or is the one that relative paths start from.
-/
theorem place?_parent {tree : FileTree} {path : String} {before : List (List Char)}
    {name : List Char} {outer : Place} (given : path ≠ "")
    (cut : Path.segments path = before ++ [name]) (moves : Path.staysPut name = false)
    (inside : tree.follow? (tree.start path) before = some outer) :
    ∃ parent, Path.parent? path = some parent ∧
      (parent = "" ∧ outer = tree.current ∨ tree.place? parent = some outer) := by
  obtain ⟨parent, isParent, stays, stay, around⟩ := Path.parent?_of_segments cut moves
  refine ⟨parent, isParent, ?_⟩
  rcases around with ⟨known, rfl⟩ | ⟨rfl, ⟨rfl, absolute⟩ | ⟨rfl, absolute⟩⟩
  · -- The directory has a path, which starts where the other one does.
    rw [follow?_append] at inside
    obtain ⟨around, arrives, stayed⟩ := Option.bind_eq_some_iff.mp inside
    obtain rfl := follow?_stay_eq stay stayed
    have start : tree.start parent = tree.start path := by
      have some : Path.segments parent ≠ [] := List.splitOn_ne_nil _ _
      rw [FileTree.start, FileTree.start, Path.isAbsolute_eq known given]
      rw [cut, List.append_assoc, List.head?_append_of_ne_nil _ some]
    rw [← start] at arrives
    exact .inr (by simpa [place?, known] using arrives)
  · -- The directory is the one that relative paths start from.
    obtain rfl := follow?_stay_eq stay inside
    exact .inl ⟨rfl, by simp [FileTree.start, absolute]⟩
  · -- The directory is the top.
    obtain rfl := follow?_stay_eq stay inside
    have top : tree.start path = [] := by simp [FileTree.start, absolute]
    exact .inr (by rw [top]; rfl)

/-- A path beside a file is followed from the place of the directory that the file lies in. -/
theorem place?_beside {tree : FileTree} (wellFormed : tree.WellFormed) {path below : String}
    {place : Place} (led : tree.fileAt? path = some place) (given : below ≠ "")
    (relative : Path.isAbsolute below = false) :
    tree.place? (Path.join ((Path.parent? path).getD ".") below) =
      tree.follow? place.dropLast (Path.segments below) := by
  have nonempty := ne_empty_of_place? (fileAt?_eq_some.mp led).1
  obtain ⟨before, name, outer, cut, moves, -, inside, directory, rfl⟩ :=
    segments_of_fileAt? wellFormed led
  obtain ⟨parent, isParent, around⟩ := place?_parent nonempty cut moves inside
  rw [isParent, Option.getD_some, List.dropLast_concat]
  rcases around with ⟨rfl, rfl⟩ | leads
  · -- Under the empty path, the other one starts where relative paths do.
    simp [Path.join, place?, FileTree.start, given, relative]
  · exact place?_join leads relative

/-- No directory has to be made around a name in a directory that exists. -/
theorem makeDirectoryPath_parent_join {tree : FileTree} {base name parent : String} {outer : Place}
    (led : tree.place? base = some outer) (isName : Path.IsName name)
    (isParent : Path.parent? (Path.join base name) = some parent) (given : parent ≠ "") :
    (tree.makeDirectoryPath parent).1 = tree := by
  obtain ⟨before, cut, inside⟩ := segments_join_led led isName.isAbsolute_eq
  rw [isName.segments_eq] at cut
  have joined := Path.join_ne_empty (ne_empty_of_place? led) isName.isAbsolute_eq
  obtain ⟨around, isAround, arrives⟩ := place?_parent joined cut isName.moves inside
  obtain rfl := Option.some.inj (isParent.symm.trans isAround)
  -- The path of the directory around is not empty, so it leads to that directory.
  have leads := arrives.resolve_left fun empty => given empty.1
  exact makeDirectories_of_follow? (follow?_of_place? leads)

/-- A file that is written in a directory leaves the other names in it as they were. -/
theorem place?_put_sibling {tree : FileTree} {base name other : String} {outer target : Place}
    (led : tree.place? base = some outer) (isName : Path.IsName name)
    (isOther : Path.IsName other) (differ : other ≠ name)
    (room : tree.filePlace? (Path.join base name) = some target) (content : Content) :
    (tree.put target content).place? (Path.join base other) =
      tree.place? (Path.join base other) := by
  have ledToo := place?_isWithin (isWithin_put tree target content) rfl led
  have written := place?_put room content
  -- The file is put where its name leads from the directory, so the other name leads elsewhere.
  rw [place?_join_name ledToo isName] at written
  split at written
  · obtain rfl := Option.some.inj written
    have apart : outer ++ [other] ≠ outer ++ [name] := by simpa using differ
    have sameFile : (tree.put (outer ++ [name]) content).hasFile (outer ++ [other]) =
        tree.hasFile (outer ++ [other]) := by
      rw [hasFile, content?_put_of_ne tree content apart, hasFile]
    rw [place?_join_name ledToo isOther, place?_join_name led isOther, sameFile]
    rfl
  · exact absurd written (by simp)

/-- Paths to the same file have the same extension. -/
theorem hasExtension_eq {tree : FileTree} (wellFormed : tree.WellFormed) {first second : String}
    {place : Place} (led : tree.fileAt? first = some place)
    (other : tree.fileAt? second = some place) (extensions : List String) :
    Path.hasExtension first extensions = Path.hasExtension second extensions := by
  -- Both end in the last name of the place.
  have named : ∀ path, tree.fileAt? path = some place →
      Path.fileName? path = place.getLast?.map String.toList := by
    intro path led
    obtain ⟨before, name, outer, cut, moves, downwards, -, -, rfl⟩ :=
      segments_of_fileAt? wellFormed led
    simp [Path.fileName?_of_segments cut moves downwards]
  simp only [Path.hasExtension, Path.extension?, named first led, named second other]

/-- The names below a place are those behind its own. -/
theorem below?_eq_some {outer place inner : Place} :
    below? outer place = some inner ↔ place = outer ++ inner := by
  -- The names are compared one by one, until those of the outer place are used up.
  induction outer generalizing place with
  | nil => simp [below?, eq_comm]
  | cons name outer ih =>
    cases place with
    | nil => simp [below?]
    | cons first place =>
      by_cases same : name = first
      · simp [below?, same, ih]
      · simp [below?, same, Ne.symm same]

/-- The path of a place below a directory leads there, if there is a file. -/
theorem place?_pathBelow {tree : FileTree} (wellFormed : tree.WellFormed) {directory : String}
    {outer inner : Place} (led : tree.place? directory = some outer)
    (present : tree.hasFile (outer ++ inner) = true) :
    tree.place? (pathBelow directory inner) = some (outer ++ inner) := by
  -- The names are put under the path one by one, and lead from directory to directory.
  induction inner generalizing directory outer with
  | nil => simpa [pathBelow] using led
  | cons name inner ih =>
    obtain ⟨file, member, same⟩ := hasFile_iff.mp present
    have isName : Path.IsName name := wellFormed.named file member name (by simp [same])
    -- The first name leads to a directory, or to the file if it is the only one.
    have arrives :
        (tree.hasDirectory (outer ++ [name]) || tree.hasFile (outer ++ [name])) = true := by
      cases inner with
      | nil => simp [present]
      | cons next inner =>
        have inside : tree.hasFile ((outer ++ [name]) ++ next :: inner) = true := by
          simpa using present
        simp [hasDirectory_of_hasFile_append wellFormed inside]
    have leads : tree.place? (Path.join directory name) = some (outer ++ [name]) := by
      rw [place?_join_name led isName]
      simp [hasDirectory_of_hasFile_append wellFormed present, arrives]
    have below := ih leads (by simpa using present)
    simpa [pathBelow] using below

/-- The places of the files below a directory that have one of several extensions, in order. -/
theorem place?_findFiles {tree : FileTree} (wellFormed : tree.WellFormed) {first second : String}
    (same : tree.place? first = tree.place? second) (extensions : List String) :
    (tree.findFiles first extensions).map tree.place? =
      (tree.findFiles second extensions).map tree.place? := by
  unfold findFiles
  rw [← same]
  cases led : tree.place? first with
  | none => rfl
  | some outer =>
    by_cases directory : tree.hasDirectory outer = true
    case neg => simp [directory]
    case pos =>
      simp only [directory, if_true]
      generalize sorted : List.mergeSort _ namesLe = found
      have present : ∀ inner ∈ found, tree.hasFile (outer ++ inner) = true := by
        intro inner member
        rw [← sorted, List.mem_mergeSort, List.mem_filterMap] at member
        obtain ⟨file, isFile, below⟩ := member
        exact hasFile_iff.mpr ⟨file, isFile, below?_eq_some.mp below⟩
      clear sorted
      -- Name by name, both paths lead to the same file, so both or neither are taken.
      induction found with
      | nil => rfl
      | cons inner found ih =>
        obtain ⟨isFile, others⟩ := List.forall_mem_cons.mp present
        have one := place?_pathBelow wellFormed led isFile
        have two := place?_pathBelow wellFormed (same ▸ led) isFile
        have ending := hasExtension_eq wellFormed (fileAt?_eq_some.mpr ⟨one, isFile⟩)
          (fileAt?_eq_some.mpr ⟨two, isFile⟩) extensions
        simp only [List.map_cons, List.filter_cons, ending]
        split
        · simp [one, two, ih others]
        · exact ih others

end FileTree

end IndexAudit
