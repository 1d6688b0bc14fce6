import IndexAudit.Proofs.Files.Place

/-!
The last names of paths, and of the places that paths lead to.

Where a path leads is decided by its segments that move. The last of them, if it is no step up, is
the name of the path as well as that of the place.
-/

namespace IndexAudit

namespace Path

/-- The segments of a path that move: its names and its steps up. -/
def steps (path : String) : List (List Char) :=
  (segments path).filter fun segment => !staysPut segment

/-- The names of a path are its steps that do not go up. -/
theorem names_eq_filter (path : String) :
    names path = (steps path).filter (· != ['.', '.']) := by
  simp [names, steps, List.filter_filter, Bool.and_comm]

/-- A step of a path is part of one segment. -/
theorem slash_notMem_steps {path : String} {segment : List Char} (step : segment ∈ steps path) :
    '/' ∉ segment :=
  -- A step is a segment, and segments are what slashes divide.
  notMem_of_mem_splitOn (List.mem_of_mem_filter step)

/-- A name of a path is one that an entry of a directory can have. -/
theorem isName_of_mem_names {path : String} {segment : List Char} (member : segment ∈ names path) :
    IsName (String.ofList segment) := by
  rw [names_eq_filter, List.mem_filter] at member
  obtain ⟨step, downwards⟩ := member
  -- A step that is a name does not go up, and no step stays put or holds a slash.
  have moves : staysPut segment = false := by simpa using List.of_mem_filter step
  exact ⟨by simpa using slash_notMem_steps step, by simpa using moves, by simpa using downwards⟩

/-- The steps of a relative path come behind those of the path it is put under. -/
theorem steps_join {base path : String} (relative : isAbsolute path = false) :
    steps (join base path) = steps base ++ steps path := by
  by_cases given : base = ""
  · -- The empty path has one segment, which stays put.
    subst given
    have stays : steps "" = [] := by decide
    simp [join, stays]
  by_cases ends : base.toList.getLast? = some '/'
  · -- So does the empty segment behind a slash.
    obtain ⟨outer, split⟩ := List.getLast?_eq_some_iff.mp ends
    obtain ⟨around, below⟩ := segments_join_slash split relative
    simp [steps, around, below, staysPut]
  · simp [steps, segments_join given relative ends]

/-- An absolute path does not change under another one. -/
theorem join_absolute (base : String) {path : String} (absolute : isAbsolute path = true) :
    join base path = path := by
  simp [join, absolute]

/-- What a path ends with under another one are its own last steps, if it has any. -/
theorem getLast?_steps_join (base : String) {path : String} {last : List Char}
    (ends : (steps path).getLast? = some last) :
    (steps (join base path)).getLast? = some last := by
  -- An absolute path stands for itself; the steps of a relative one come last.
  cases absolute : isAbsolute path with
  | true => rwa [join_absolute base absolute]
  | false =>
    rw [steps_join absolute, List.getLast?_append, ends]
    rfl

/-- The last segment that is left of a list is the last one that is not dropped. -/
theorem getLast?_rdropWhile (segments : List (List Char)) :
    (segments.rdropWhile staysPut).getLast? =
      (segments.filter fun segment => !staysPut segment).getLast? := by
  -- Segments are dropped from the end, up to the first one that moves.
  induction segments using List.reverseRecOn with
  | nil => rfl
  | append_singleton front last ih =>
    by_cases stays : staysPut last = true
    · rw [List.rdropWhile_concat_pos _ _ _ stays, ih]
      simp [stays]
    · rw [List.rdropWhile_concat_neg _ _ _ stays]
      simp [stays]

/-- The body of a path ends with its last step. -/
theorem getLast?_body (path : String) : (body path).getLast? = (steps path).getLast? := by
  have behind : (body path).getLast? =
      (((path.toList.drop (front path).length).splitOn '/').filter
        fun segment => !staysPut segment).getLast? :=
    getLast?_rdropWhile _
  rw [behind, steps]
  -- What stands in front of the body stays put.
  rcases segments_front path with ⟨-, split⟩ | ⟨-, split⟩ | ⟨begins, split⟩ |
    ⟨-, rest, split, inner⟩
  · rw [split]
  · simp [split, staysPut]
  · have only : path.toList.drop (front path).length = [] := by
      have whole : ['/'].intercalate (segments path) = path.toList :=
        List.intercalate_splitOn '/'
      rw [split] at whole
      simp [begins, ← whole]
    simp [only, split, staysPut]
  · simp [split, inner, staysPut]

/-- A path is named after its last step, unless that goes up. -/
theorem fileName?_eq (path : String) :
    fileName? path = (steps path).getLast?.filter (· != ['.', '.']) := by
  rw [fileName?, getLast?_body]
  cases (steps path).getLast? with
  | none => rfl
  | some last =>
    -- The body ends with the last step, which is the file name unless it goes up.
    by_cases up : last = ['.', '.']
    · simp [up, Option.filter]
    · simp [up, Option.filter]

/-- A path that goes only down has no steps but its names. -/
structure Descends (path : String) : Prop where
  relative : isAbsolute path = false
  downwards : ['.', '.'] ∉ segments path

/-- Whether a path goes only down is decided by its segments. -/
instance (path : String) : Decidable (Descends path) :=
  decidable_of_iff (isAbsolute path = false ∧ ['.', '.'] ∉ segments path)
    ⟨fun ⟨relative, downwards⟩ => ⟨relative, downwards⟩,
      fun ⟨relative, downwards⟩ => ⟨relative, downwards⟩⟩

/-- The steps of a path that goes only down are its names. -/
theorem Descends.steps_eq {path : String} (descends : Descends path) :
    steps path = names path := by
  rw [names_eq_filter, List.filter_eq_self.mpr]
  intro segment step
  -- A step that goes up would be a segment that does.
  have member : segment ∈ segments path := List.mem_of_mem_filter step
  simpa using fun up : segment = ['.', '.'] => descends.downwards (up ▸ member)

end Path

namespace FileTree

/-- A tree in which directories have names that a path can give. -/
structure Named (tree : FileTree) : Prop where
  directories : ∀ place ∈ tree.directories, ∀ name ∈ place, Path.IsName name
  current : ∀ name ∈ tree.current, Path.IsName name

/-- Whether the directories of a tree have such names is decided one by one. -/
instance (tree : FileTree) : Decidable tree.Named :=
  decidable_of_iff ((∀ place ∈ tree.directories, ∀ name ∈ place, Path.IsName name) ∧
      ∀ name ∈ tree.current, Path.IsName name)
    ⟨fun ⟨directories, current⟩ => ⟨directories, current⟩,
      fun ⟨directories, current⟩ => ⟨directories, current⟩⟩

/-- Where segments lead, their steps lead whether there is anything or not. -/
theorem eq_foldl_of_follow? {tree : FileTree} {place found : Place} {segments : List (List Char)}
    (led : tree.follow? place segments = some found) :
    found = (segments.filter fun segment => !Path.staysPut segment).foldl step place := by
  induction segments generalizing place with
  | nil => exact (Option.some.inj led).symm
  | cons segment rest ih =>
    simp only [follow?] at led
    split at led
    · have later := ih led
      -- A segment that stays put moves nowhere, so it may be left out.
      by_cases stays : Path.staysPut segment = true
      · simpa [stays, step] using later
      · simpa [stays] using later
    · exact absurd led (by simp)

/-- The place that a path leads to is the one that its steps lead to. -/
theorem eq_foldl_of_place? {tree : FileTree} {path : String} {place : Place}
    (led : tree.place? path = some place) :
    place = (Path.steps path).foldl step (tree.start path) :=
  -- The place is reached by following the segments, and only steps move.
  eq_foldl_of_follow? (follow?_of_place? led)

/-- A path that ends with a name leads to a place of that name. -/
theorem getLast?_of_place? {tree : FileTree} {path : String} {place : Place} {last : List Char}
    (led : tree.place? path = some place) (ends : (Path.steps path).getLast? = some last)
    (downwards : last ≠ ['.', '.']) : place.getLast? = some (String.ofList last) := by
  obtain ⟨front, steps⟩ := List.getLast?_eq_some_iff.mp ends
  have moves : Path.staysPut last = false := by
    have step : last ∈ Path.steps path := by simp [steps]
    simpa using List.of_mem_filter step
  -- The last step puts the name behind whatever place the others lead to.
  rw [eq_foldl_of_place? led, steps, List.foldl_concat]
  simp [step, moves, downwards]

/-- Steps lead to places whose names a path can give. -/
theorem isName_of_mem_foldl {path : String} {place : Place}
    (named : ∀ name ∈ place, Path.IsName name) {steps : List (List Char)}
    (within : ∀ segment ∈ steps, segment ∈ Path.steps path) :
    ∀ name ∈ steps.foldl step place, Path.IsName name := by
  induction steps generalizing place with
  | nil => exact named
  | cons segment rest ih =>
    obtain ⟨isStep, later⟩ := List.forall_mem_cons.mp within
    refine ih ?_ later
    have moves : Path.staysPut segment = false := by simpa using List.of_mem_filter isStep
    -- A step up takes a name off, and any other step puts its own behind.
    by_cases up : segment = ['.', '.']
    · intro name member
      rw [step, moves, if_neg (by simp), if_pos up] at member
      exact named name ((List.dropLast_sublist place).subset member)
    · intro name member
      rw [step, moves, if_neg (by simp), if_neg up] at member
      rcases List.mem_append.mp member with before | last
      · exact named name before
      · rw [List.mem_singleton.mp last]
        have member : segment ∈ Path.names path := by simp [Path.names_eq_filter, isStep, up]
        exact Path.isName_of_mem_names member

/-- The places that paths lead to have names that a path can give. -/
theorem Named.isName {tree : FileTree} (named : tree.Named) {path : String} {place : Place}
    (led : tree.place? path = some place) : ∀ name ∈ place, Path.IsName name := by
  rw [eq_foldl_of_place? led]
  refine isName_of_mem_foldl ?_ fun segment step => step
  -- A path starts from the top or from the current directory.
  unfold start
  split
  · simp
  · exact named.current

end FileTree

end IndexAudit
