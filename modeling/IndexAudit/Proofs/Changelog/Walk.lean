import IndexAudit.Changelog.Walk
import Mathlib.Data.List.Nodup

/-!
The walk over changelogs is a depth-first traversal.

A file is marked before what it refers to is followed, so a reference back to it leads nowhere new;
the walk needs no more than the places that are still unread to know what was marked.
-/

namespace IndexAudit

/-- The paths of the files that a changelog refers to, in order. -/
def ChangelogFile.next (tree : FileTree) (base : String) (file : ChangelogFile) : List String :=
  file.scanned.references.flatMap (Changelog.targets tree base file.path)

namespace Changelog

/-- The changelog that a path leads to, as it is read by that path. -/
def read? (tree : FileTree) (path : String) : Option ChangelogFile := do
  let place ← tree.place? path
  let content ← tree.content? place
  some ⟨path, place, scanFile path content⟩

/-- A changelog is read by the path that leads to it. -/
theorem read?_path {tree : FileTree} {path : String} {file : ChangelogFile}
    (found : read? tree path = some file) : file.path = path := by
  -- The path is put into the record as it is given.
  simp only [read?, Option.bind_eq_bind, Option.bind_eq_some_iff, Option.some.injEq] at found
  obtain ⟨place, -, content, -, rfl⟩ := found
  rfl

/-- With nothing pending, nothing is read. -/
@[simp] theorem walk_nil (tree : FileTree) (base : String) (unread : List Place) :
    walk tree base unread [] = [] := by
  rw [walk]

/-- One step of a walk: a file at an unread place is read, and what it refers to comes next. -/
theorem walk_cons (tree : FileTree) (base : String) (unread : List Place) (path : String)
    (rest : List String) :
    walk tree base unread (path :: rest) =
      match read? tree path with
      | none => walk tree base unread rest
      | some file =>
        if file.place ∈ unread then
          file :: walk tree base (unread.erase file.place) (file.next tree base ++ rest)
        else walk tree base unread rest := by
  -- A path that leads nowhere, or to a directory, is passed over like one to a file that is read.
  rw [walk, read?]
  cases tree.place? path with
  | none => rfl
  | some place =>
    cases found : tree.content? place with
    | none => simp [found]
    | some content =>
      by_cases fresh : place ∈ unread
      · simp [found, fresh, ChangelogFile.next]
      · simp [found, fresh]

/-- A traversal of pending paths, where files at some places were visited before. -/
inductive Traversal (tree : FileTree) (base : String) :
    List Place → List String → List ChangelogFile → Prop
  | done {visited : List Place} : Traversal tree base visited [] []
  /-- A path that leads to no file adds nothing. -/
  | missing {visited : List Place} {path : String} {pending : List String}
      {files : List ChangelogFile} (absent : read? tree path = none)
      (later : Traversal tree base visited pending files) :
      Traversal tree base visited (path :: pending) files
  /-- A file that was visited before is not visited again. -/
  | again {visited : List Place} {path : String} {pending : List String} {file : ChangelogFile}
      {files : List ChangelogFile} (found : read? tree path = some file)
      (seen : file.place ∈ visited) (later : Traversal tree base visited pending files) :
      Traversal tree base visited (path :: pending) files
  /-- Else all that the file leads to is visited before what is pending behind it. -/
  | first {visited : List Place} {path : String} {pending : List String} {file : ChangelogFile}
      {inner files : List ChangelogFile} (found : read? tree path = some file)
      (fresh : file.place ∉ visited)
      (below : Traversal tree base (file.place :: visited) (file.next tree base) inner)
      (later : Traversal tree base (inner.map (·.place) ++ file.place :: visited) pending files) :
      Traversal tree base visited (path :: pending) (file :: inner ++ files)

namespace Traversal

variable {tree : FileTree} {base : String} {visited : List Place} {pending : List String}
  {files : List ChangelogFile}

/-- Each file that is visited is the one its path leads to. -/
theorem asRead (traversal : Traversal tree base visited pending files) :
    ∀ file ∈ files, read? tree file.path = some file := by
  -- The file keeps the path by which it was found.
  induction traversal with
  | done => simp
  | missing _ _ ih => exact ih
  | again _ _ _ ih => exact ih
  | first found _ _ _ inside behind =>
    intro file member
    rw [List.cons_append, List.mem_cons, List.mem_append] at member
    rcases member with rfl | member | member
    · exact read?_path found ▸ found
    · exact inside file member
    · exact behind file member

/-- No file that is visited was visited before. -/
theorem apart (traversal : Traversal tree base visited pending files) :
    ∀ file ∈ files, file.place ∉ visited := by
  -- Both parts of a traversal start with at least the places that were visited before.
  induction traversal with
  | done => simp
  | missing _ _ ih => exact ih
  | again _ _ _ ih => exact ih
  | first _ fresh _ _ inside behind =>
    intro file member seen
    rw [List.cons_append, List.mem_cons, List.mem_append] at member
    rcases member with rfl | member | member
    · exact fresh seen
    · exact inside file member (List.mem_cons_of_mem _ seen)
    · exact behind file member (List.mem_append_right _ (List.mem_cons_of_mem _ seen))

/-- No place is visited twice. -/
theorem once (traversal : Traversal tree base visited pending files) :
    (files.map (·.place)).Nodup := by
  induction traversal with
  | done => simp
  | missing _ _ ih => exact ih
  | again _ _ _ ih => exact ih
  | @first visited path pending file inner files found fresh below later inside behind =>
    -- The file and all below it were visited when what is behind it is followed.
    have belowApart : file.place ∉ inner.map (·.place) := by
      intro member
      obtain ⟨other, isInner, same⟩ := List.mem_map.mp member
      exact below.apart other isInner (same ▸ List.mem_cons_self)
    have laterApart : file.place ∉ files.map (·.place) := by
      intro member
      obtain ⟨other, isLater, same⟩ := List.mem_map.mp member
      exact later.apart other isLater (same ▸ List.mem_append_right _ List.mem_cons_self)
    have disjoint : (inner.map (·.place)).Disjoint (files.map (·.place)) := by
      intro place isInner member
      obtain ⟨other, isLater, rfl⟩ := List.mem_map.mp member
      exact later.apart other isLater (List.mem_append_left _ isInner)
    rw [List.cons_append, List.map_cons, List.map_append, List.nodup_cons, List.mem_append]
    exact ⟨not_or.mpr ⟨belowApart, laterApart⟩, inside.append behind disjoint⟩

/-- Where a pending path leads is visited in the end, if it was not before. -/
theorem covers (traversal : Traversal tree base visited pending files) :
    ∀ path ∈ pending, ∀ file, read? tree path = some file →
      file.place ∈ files.map (·.place) ++ visited := by
  -- A pending path is dropped only where it leads to no file or to a visited one.
  induction traversal with
  | done => simp
  | missing absent _ ih =>
    intro path member file found
    rcases List.mem_cons.mp member with rfl | member
    · rw [absent] at found
      exact absurd found (by simp)
    · exact ih path member file found
  | again known seen _ ih =>
    intro path member file found
    rcases List.mem_cons.mp member with rfl | member
    · obtain rfl := Option.some.inj (known.symm.trans found)
      exact List.mem_append_right _ seen
    · exact ih path member file found
  | first known _ _ _ _ behind =>
    intro path member file found
    rcases List.mem_cons.mp member with rfl | member
    · obtain rfl := Option.some.inj (known.symm.trans found)
      simp
    · have reached := behind path member file found
      simp only [List.mem_append, List.map_append, List.map_cons, List.mem_cons,
        List.cons_append] at reached ⊢
      tauto

/-- What a visited file refers to is visited too. -/
theorem closed (traversal : Traversal tree base visited pending files) :
    ∀ file ∈ files, ∀ target ∈ file.next tree base, ∀ next, read? tree target = some next →
      next.place ∈ files.map (·.place) ++ visited := by
  induction traversal with
  | done => simp
  | missing _ _ ih => exact ih
  | again _ _ _ ih => exact ih
  | @first visited path pending file inner files _ _ below _ inside behind =>
    intro source member target isTarget next found
    -- Wherever the file stands, its targets are covered by the part of the traversal it is in.
    have reached : next.place ∈ inner.map (·.place) ++ file.place :: visited ∨
        next.place ∈ files.map (·.place) ++ (inner.map (·.place) ++ file.place :: visited) := by
      rw [List.cons_append, List.mem_cons, List.mem_append] at member
      rcases member with rfl | member | member
      · exact .inl (below.covers target isTarget next found)
      · exact .inl (inside source member target isTarget next found)
      · exact .inr (behind source member target isTarget next found)
    simp only [List.mem_append, List.map_append, List.map_cons, List.mem_cons,
      List.cons_append] at reached ⊢
    tauto

/-- Nothing is visited but what some pending path leads to in the end. -/
theorem within (traversal : Traversal tree base visited pending files) (reached : String → Prop)
    (begins : ∀ path ∈ pending, reached path)
    (step : ∀ file ∈ files, reached file.path → ∀ target ∈ file.next tree base, reached target) :
    ∀ file ∈ files, reached file.path := by
  -- The step goes from a file to the paths that the part below it starts from.
  induction traversal with
  | done => simp
  | missing _ _ ih => exact ih (List.forall_mem_cons.mp begins).2 step
  | again _ _ _ ih => exact ih (List.forall_mem_cons.mp begins).2 step
  | @first visited path pending file inner files found _ _ _ inside behind =>
    obtain ⟨here, others⟩ := List.forall_mem_cons.mp begins
    rw [← read?_path found] at here
    rw [List.cons_append, List.forall_mem_cons] at step ⊢
    obtain ⟨stepHere, stepOthers⟩ := step
    rw [List.forall_mem_append] at stepOthers ⊢
    exact ⟨here, inside (stepHere here) stepOthers.1, behind others stepOthers.2⟩

end Traversal

/-- The unread places that are left when files are read. -/
def unreadAfter (unread : List Place) (files : List ChangelogFile) : List Place :=
  unread.filter fun place => !(files.map (·.place)).contains place

/-- Where no file is read, all places are left. -/
@[simp] theorem unreadAfter_nil (unread : List Place) : unreadAfter unread [] = unread := by
  simp [unreadAfter]

/-- A place that is left is still there once. -/
theorem unreadAfter_nodup {unread : List Place} (distinct : unread.Nodup)
    (files : List ChangelogFile) : (unreadAfter unread files).Nodup :=
  -- What is left is a part of what there was.
  distinct.filter _

/-- No more places are left than there were. -/
theorem unreadAfter_length (unread : List Place) (files : List ChangelogFile) :
    (unreadAfter unread files).length ≤ unread.length :=
  List.length_filter_le _ _

/-- Reading a file takes its place from those that are unread. -/
theorem unreadAfter_cons {unread : List Place} (distinct : unread.Nodup) (file : ChangelogFile)
    (files : List ChangelogFile) :
    unreadAfter unread (file :: files) = unreadAfter (unread.erase file.place) files := by
  -- Where no place is listed twice, erasing one leaves all others.
  rw [unreadAfter, unreadAfter, distinct.erase_eq_filter, List.filter_filter]
  refine List.filter_congr fun place _ => ?_
  rw [Bool.eq_iff_iff]
  simp [and_comm]

/-- Taking a place that is unread leaves fewer of them. -/
theorem erase_shorter {unread : List Place} {place : Place} (listed : place ∈ unread) :
    (unread.erase place).length < unread.length := by
  -- One place is taken out, and there is one.
  have positive := List.length_pos_of_mem listed
  rw [List.length_erase_of_mem listed]
  omega

/-- What is pending behind some paths is read when the walk from those is over. -/
theorem walk_append (tree : FileTree) (base : String) {unread : List Place}
    (distinct : unread.Nodup) (first rest : List String) :
    walk tree base unread (first ++ rest) =
      walk tree base unread first ++
        walk tree base (unreadAfter unread (walk tree base unread first)) rest := by
  -- Each step reads a file or drops a path, on both sides alike.
  cases first with
  | nil => simp
  | cons path first =>
    rw [List.cons_append, walk_cons, walk_cons]
    cases found : read? tree path with
    | none => exact walk_append tree base distinct first rest
    | some file =>
      by_cases fresh : file.place ∈ unread
      · have shorter := erase_shorter fresh
        have inner := walk_append tree base (distinct.erase file.place)
          (file.next tree base ++ first) rest
        simp only [if_pos fresh, List.cons_append, unreadAfter_cons distinct, ← inner,
          List.append_assoc]
      · simp only [if_neg fresh]
        exact walk_append tree base distinct first rest
termination_by (unread.length, first.length)

/-- The unread places are those of the files that were not visited. -/
def Agrees (tree : FileTree) (unread visited : List Place) : Prop :=
  ∀ path file, read? tree path = some file → (file.place ∈ unread ↔ file.place ∉ visited)

/-- Files that are read are not unread any more, but visited. -/
theorem Agrees.after {tree : FileTree} {unread visited : List Place}
    (agrees : Agrees tree unread visited) (files : List ChangelogFile) :
    Agrees tree (unreadAfter unread files) (files.map (·.place) ++ visited) := by
  -- A place is left if it was unread and none of the files is there.
  intro path file found
  simp only [unreadAfter, List.mem_filter, agrees path file found, Bool.not_eq_true',
    Bool.eq_false_iff, ne_eq, List.contains_iff_mem, List.mem_append, not_or]
  exact and_comm

/-- What a walk reads is what a traversal visits, in the same order. -/
theorem walk_traversal (tree : FileTree) (base : String) {unread visited : List Place}
    (distinct : unread.Nodup) (agrees : Agrees tree unread visited) (pending : List String) :
    Traversal tree base visited pending (walk tree base unread pending) := by
  -- By the same measure as the walk: a file that is read leaves fewer places unread.
  cases pending with
  | nil =>
    rw [walk_nil]
    exact .done
  | cons path rest =>
    rw [walk_cons]
    cases found : read? tree path with
    | none => exact .missing found (walk_traversal tree base distinct agrees rest)
    | some file =>
      by_cases fresh : file.place ∈ unread
      · simp only [if_pos fresh]
        -- The walk from the file itself comes first, and leaves fewer places unread.
        have marked := agrees.after [file]
        rw [unreadAfter_cons distinct, unreadAfter_nil] at marked
        have distinctAfter := distinct.erase file.place
        rw [walk_append tree base distinctAfter]
        have shorter := erase_shorter fresh
        have left := unreadAfter_length (unread.erase file.place)
          (walk tree base (unread.erase file.place) (file.next tree base))
        exact .first found ((agrees path file found).mp fresh)
          (walk_traversal tree base distinctAfter marked (file.next tree base))
          (walk_traversal tree base (unreadAfter_nodup distinctAfter _) (marked.after _) rest)
      · -- A file that is not unread was visited.
        simp only [if_neg fresh]
        have seen := not_not.mp (mt (agrees path file found).mpr fresh)
        exact .again found seen (walk_traversal tree base distinct agrees rest)
termination_by (unread.length, pending.length)

end Changelog

end IndexAudit
