import IndexAudit.Files.Path
import IndexAudit.Proofs.Text.Search
import Mathlib.Data.List.DropRight

/-! The segments of paths that are put together, and of the directory that a path lies in. -/

namespace IndexAudit

namespace Path

/-- A name that one entry of a directory can have: it is one segment, and leads to that entry. -/
structure IsName (name : String) : Prop where
  slashless : '/' ∉ name.toList
  moves : staysPut name.toList = false
  downwards : name.toList ≠ ['.', '.']

/-- Whether a text is a name is decided by its characters. -/
instance (name : String) : Decidable (IsName name) :=
  decidable_of_iff ('/' ∉ name.toList ∧ staysPut name.toList = false ∧ name.toList ≠ ['.', '.'])
    ⟨fun ⟨slashless, moves, downwards⟩ => ⟨slashless, moves, downwards⟩,
      fun ⟨slashless, moves, downwards⟩ => ⟨slashless, moves, downwards⟩⟩

/-- A name is a path of one segment. -/
theorem IsName.segments_eq {name : String} (isName : IsName name) :
    segments name = [name.toList] :=
  List.splitOn_eq_singleton isName.slashless

/-- A name is no absolute path. -/
theorem IsName.isAbsolute_eq {name : String} (isName : IsName name) : isAbsolute name = false := by
  -- Its first character, if it has one, is no slash.
  have slashless := isName.slashless
  cases characters : name.toList with
  | nil => simp [isAbsolute, characters]
  | cons first rest =>
    rw [characters, List.mem_cons, not_or] at slashless
    simpa [isAbsolute, characters] using fun same => slashless.1 same.symm

/-- A path that is not empty is absolute if its first segment is empty. -/
theorem isAbsolute_iff {path : String} (nonempty : path ≠ "") :
    isAbsolute path = true ↔ (segments path).head? = some [] := by
  -- The first character is a slash, or it is in the first segment.
  rw [isAbsolute, segments]
  cases characters : path.toList with
  | nil => exact absurd (String.toList_eq_nil_iff.mp characters) nonempty
  | cons character rest =>
    rw [List.splitOn_cons_eq_if_modifyHead]
    cases pieces : rest.splitOn '/' with
    | nil => exact absurd pieces (List.splitOn_ne_nil _ _)
    | cons first others =>
      by_cases slash : character = '/'
      · simp [slash]
      · simp [slash]

/-- Paths that begin with the same segment are absolute together. -/
theorem isAbsolute_eq {first second : String} (given : first ≠ "") (other : second ≠ "")
    (same : (segments first).head? = (segments second).head?) :
    isAbsolute first = isAbsolute second := by
  -- Whether a path is absolute is told by its first segment.
  rw [Bool.eq_iff_iff, isAbsolute_iff given, isAbsolute_iff other, same]

/-- A path under one that is not empty starts where that one does. -/
theorem isAbsolute_join {base path : String} (given : base ≠ "")
    (relative : isAbsolute path = false) : isAbsolute (join base path) = isAbsolute base := by
  have present : base.toList ≠ [] := fun nothing => given (String.toList_eq_nil_iff.mp nothing)
  have filled : base.isEmpty = false := by simpa using given
  simp only [join, relative, filled, Bool.or_self, Bool.false_eq_true, if_false]
  -- Both are told by the first character, which stays.
  split
  · simp [isAbsolute, List.head?_append_of_ne_nil _ present]
  · simp [isAbsolute, List.head?_append_of_ne_nil _ present]

/-- A path under one that is not empty is not empty either. -/
theorem join_ne_empty {base path : String} (given : base ≠ "")
    (relative : isAbsolute path = false) : join base path ≠ "" := by
  -- It has the other path in it, with or without a slash behind.
  have filled : base.isEmpty = false := by simpa using given
  simp only [join, relative, filled, Bool.or_self, Bool.false_eq_true, if_false]
  split <;> simp [given]

/-- Behind a path that does not end in a slash come the segments of what is put under it. -/
theorem segments_join {base path : String} (nonempty : base ≠ "")
    (relative : isAbsolute path = false) (ends : base.toList.getLast? ≠ some '/') :
    segments (join base path) = segments base ++ segments path := by
  -- A slash is put between them, at which the segments are cut.
  have given : base.isEmpty = false := by simpa using nonempty
  simp only [join, relative, given, Bool.or_self, Bool.false_eq_true, if_false, if_neg ends]
  simp [segments, List.splitOn_append_cons_self]

/-- A slash at the end of a path has an empty segment behind it, which gives way. -/
theorem segments_join_slash {base path : String} {outer : List Char}
    (ends : base.toList = outer ++ ['/']) (relative : isAbsolute path = false) :
    segments base = outer.splitOn '/' ++ [[]] ∧
      segments (join base path) = outer.splitOn '/' ++ segments path := by
  -- A path that ends in a slash is not empty, so the other one is put right behind it.
  have given : base.isEmpty = false := by
    simpa [← String.toList_eq_nil_iff] using fun nothing => by simp [nothing] at ends
  have joined : join base path = base ++ path := by
    simp [join, relative, given, ends]
  rw [joined]
  simp [segments, ends, List.splitOn_append_cons_self]

/-- The segments behind the front of a path, which are its segments but for what stays put. -/
theorem segments_front (path : String) :
    (front path = [] ∧ segments path = (path.toList.drop (front path).length).splitOn '/') ∨
    (front path = ['/'] ∧
      segments path = [] :: (path.toList.drop (front path).length).splitOn '/') ∨
    (front path = ['.'] ∧ segments path = [['.']]) ∨
    front path = ['.'] ∧ ∃ rest, segments path = ['.'] :: rest ∧
      (path.toList.drop (front path).length).splitOn '/' = [] :: rest := by
  unfold front segments
  split
  case h_1 rest begins =>
    -- The slash in front ends an empty segment.
    exact .inr (.inl ⟨rfl, by simpa [begins] using List.splitOn_append_cons_self [] rest⟩)
  case h_2 begins =>
    exact .inr (.inr (.inl ⟨rfl, by simp [begins, List.splitOn_cons_eq_if_modifyHead]⟩))
  case h_3 rest begins =>
    refine .inr (.inr (.inr ⟨rfl, rest.splitOn '/', ?_, ?_⟩))
    · simpa [begins] using
        List.splitOn_append_cons_self_of_not_mem (by decide : '/' ∉ ['.']) rest
    · simpa [begins] using List.splitOn_append_cons_self [] rest
  case h_4 => exact .inl ⟨rfl, rfl⟩

/-- How the segments in front of the last one of a path stand to those behind its front. -/
def IsCut (path : String) (before inner : List (List Char)) : Prop :=
  (front path = [] ∧ before = inner) ∨ (front path = ['/'] ∧ before = [] :: inner) ∨
    front path = ['.'] ∧ ∃ rest, before = ['.'] :: rest ∧ inner = [] :: rest

/-- No segment of the body of a path has a slash in it. -/
theorem slash_notMem_body {path : String} {segment : List Char} (member : segment ∈ body path) :
    '/' ∉ segment :=
  -- The body is a part of the segments, and these are what slashes divide.
  notMem_of_mem_splitOn ((List.rdropWhile_prefix staysPut _).subset member)

/-- A path begins with a slash if its front is one. -/
theorem isAbsolute_eq_front (path : String) : isAbsolute path = (front path == ['/']) := by
  -- One case of the four begins with a slash.
  unfold isAbsolute front
  split
  case h_1 rest begins => simp [begins]
  case h_2 begins => simp [begins]
  case h_3 rest begins => simp [begins]
  case h_4 other _ _ =>
    cases characters : path.toList with
    | nil => rfl
    | cons character rest =>
      have apart : character ≠ '/' := fun same => other rest (same ▸ characters)
      simpa using apart

/-- If the last segment of a path moves, the body of the path ends with it. -/
theorem body_of_segments {path : String} {before : List (List Char)} {name : List Char}
    (cut : segments path = before ++ [name]) (moves : staysPut name = false) :
    ∃ inner, body path = inner ++ [name] ∧ IsCut path before inner := by
  have whole : ∀ inner : List (List Char),
      (path.toList.drop (front path).length).splitOn '/' = inner ++ [name] →
      body path = inner ++ [name] := by
    -- Nothing behind the last segment is left out.
    intro inner split
    rw [body, split]
    exact List.rdropWhile_concat_neg _ _ _ (by simp [moves])
  rcases segments_front path with ⟨begins, split⟩ | ⟨begins, split⟩ | ⟨begins, split⟩ |
    ⟨begins, rest, split, behind⟩
  · exact ⟨before, whole before (split ▸ cut), .inl ⟨begins, rfl⟩⟩
  · rcases List.cons_eq_append_iff.mp (split ▸ cut) with ⟨-, nothing⟩ | ⟨inner, rfl, behind⟩
    · simp at nothing
    · exact ⟨inner, whole inner behind, .inr (.inl ⟨begins, rfl⟩)⟩
  · -- The only segment stays put.
    rcases List.cons_eq_append_iff.mp (split ▸ cut) with ⟨-, only⟩ | ⟨inner, -, behind⟩
    · obtain ⟨rfl, -⟩ := List.cons.inj only
      exact absurd moves (by decide)
    · simp at behind
  · rcases List.cons_eq_append_iff.mp (split ▸ cut) with ⟨-, only⟩ | ⟨inner, rfl, rfl⟩
    · obtain ⟨rfl, -⟩ := List.cons.inj only
      exact absurd moves (by decide)
    · exact ⟨[] :: inner, whole _ behind, .inr (.inr ⟨begins, inner, rfl, rfl⟩)⟩

/-- The file name of a path is its last segment, if that moves downwards. -/
theorem fileName?_of_segments {path : String} {before : List (List Char)} {name : List Char}
    (cut : segments path = before ++ [name]) (moves : staysPut name = false)
    (downwards : name ≠ ['.', '.']) : fileName? path = some name := by
  -- What moves at the end of a path ends its body, too.
  obtain ⟨inner, body, -⟩ := body_of_segments cut moves
  simp [fileName?, body, downwards]

/--
A path is that of the directory around another one: it has the segments in front of the last one, up
to some that stay put. A path of one name has the empty one or the top around it.
-/
def IsAround (parent path : String) (before : List (List Char)) : Prop :=
  ∃ stays, (∀ segment ∈ stays, staysPut segment = true) ∧
    ((parent ≠ "" ∧ before = segments parent ++ stays) ∨
      before = stays ∧
        (parent = "" ∧ isAbsolute path = false ∨ parent = "/" ∧ isAbsolute path = true))

/-- The path that is made of the segments that are kept is that of the directory around. -/
theorem isAround_kept {path : String} {before kept stays : List (List Char)}
    (cut : IsCut path before (kept ++ stays)) (plain : ∀ segment ∈ kept, '/' ∉ segment)
    (named : kept ≠ [[]]) (stay : ∀ segment ∈ stays, staysPut segment = true) :
    IsAround (String.ofList (front path ++ ['/'].intercalate kept)) path before := by
  unfold IsAround
  rw [isAbsolute_eq_front]
  -- Segments without slashes make a path that is taken apart into them again, behind any front.
  rcases cut with ⟨begins, rfl⟩ | ⟨begins, rfl⟩ | ⟨begins, rest, rfl, inner⟩
  · refine ⟨stays, stay, ?_⟩
    rw [begins]
    by_cases nothing : kept = []
    · right
      simp [nothing]
    · have whole := List.splitOn_intercalate '/' plain nothing
      left
      constructor
      · intro empty
        apply named
        rw [← whole, show ['/'].intercalate kept = [] by simpa using empty]
        rfl
      · simp [segments, whole]
  · by_cases nothing : kept = []
    · -- What is left is the slash in front, with an empty segment before it.
      refine ⟨[] :: stays, by simpa [staysPut] using stay, ?_⟩
      simp [begins, nothing]
    · have whole := List.splitOn_append_cons_self (a := '/') [] (['/'].intercalate kept)
      rw [List.splitOn_intercalate '/' plain nothing] at whole
      simp only [List.nil_append, List.splitOn_nil, List.singleton_append] at whole
      refine ⟨stays, stay, .inl ⟨by simp [begins], ?_⟩⟩
      simp [segments, begins, whole]
  · cases kept with
    | nil =>
      -- What is left is the dot in front, and the empty segment behind it stays put.
      obtain rfl : [] :: rest = stays := inner.symm
      have others := (List.forall_mem_cons.mp stay).2
      refine ⟨rest, others, .inl ⟨by simp [begins], ?_⟩⟩
      simp [begins, segments, List.splitOn_cons_eq_if_modifyHead]
    | cons first others =>
      obtain ⟨rfl, rfl⟩ := List.cons.inj inner
      have further : others ≠ [] := fun nothing => named (by rw [nothing])
      have whole := List.splitOn_append_cons_self_of_not_mem (by decide : '/' ∉ ['.'])
        (['/'].intercalate others)
      rw [List.splitOn_intercalate '/' (List.forall_mem_cons.mp plain).2 further] at whole
      simp only [List.singleton_append] at whole
      refine ⟨stays, stay, .inl ⟨by simp [begins], ?_⟩⟩
      simp [segments, begins, List.intercalate_cons_of_ne_nil further, whole]

/-- A path whose last segment moves has a parent, which is the path of the directory around. -/
theorem parent?_of_segments {path : String} {before : List (List Char)} {name : List Char}
    (cut : segments path = before ++ [name]) (moves : staysPut name = false) :
    ∃ parent, parent? path = some parent ∧ IsAround parent path before := by
  obtain ⟨inner, body, cut⟩ := body_of_segments cut moves
  -- What stays put at the end is taken off.
  have parent : parent? path = some (String.ofList (front path ++
      ['/'].intercalate (inner.rdropWhile staysPut))) := by
    simp [parent?, body, List.rdropWhile]
  have plain : ∀ segment ∈ inner.rdropWhile staysPut, '/' ∉ segment := by
    intro segment member
    have inBody : segment ∈ Path.body path := by
      rw [body]
      exact List.mem_append_left _ ((List.rdropWhile_prefix staysPut _).subset member)
    exact slash_notMem_body inBody
  have named : inner.rdropWhile staysPut ≠ [[]] := by
    intro only
    have last := List.rdropWhile_last_not staysPut inner (by simp [only])
    simp [only, staysPut] at last
  have parted : inner.rdropWhile staysPut ++ inner.rtakeWhile staysPut = inner :=
    List.rdropWhile_append_rtakeWhile
  rw [← parted] at cut
  exact ⟨_, parent, isAround_kept cut plain named fun _ member => List.mem_rtakeWhile_imp member⟩

end Path

end IndexAudit
