import IndexAudit.Keyed
import Mathlib.Data.List.Lex
import Mathlib.Data.String.Basic

/-!
What taking the first thing of each key keeps, and what sorting by keys moves.

Both are determined by what they do to each single key: the first takes what `IsFirst` says, and the
second leaves the things of one key as they stand.
-/

namespace IndexAudit

namespace Keyed

variable {α κ : Type}

/-- A thing of a list in front of which nothing has the same key. -/
def IsFirst (key : α → κ) (list : List α) (a : α) : Prop :=
  ∃ before after, list = before ++ a :: after ∧ ∀ other ∈ before, key other ≠ key a

/-- The things of a list in the order of their keys, those of one key in the order they had. -/
structure IsStableSort (key : α → List String) (list sorted : List α) : Prop where
  perm : sorted.Perm list
  ordered : sorted.Pairwise fun a b => key a ≤ key b
  stable : ∀ value, sorted.filter (key · = value) = list.filter (key · = value)

/-- The first thing of a key is one of the list. -/
theorem IsFirst.mem {key : α → κ} {list : List α} {a : α} (first : IsFirst key list a) :
    a ∈ list := by
  -- It stands between what is before it and what is after.
  obtain ⟨before, after, rfl, _⟩ := first
  simp

/-- The first thing of a list that is not empty is the first one of its key. -/
theorem isFirst_head (key : α → κ) (a : α) (rest : List α) : IsFirst key (a :: rest) a :=
  -- Nothing stands in front of it.
  ⟨[], rest, rfl, by simp⟩

/-- Behind a thing of another key the first things are those of the rest. -/
theorem isFirst_cons {key : α → κ} {head a : α} {rest : List α} (other : key head ≠ key a) :
    IsFirst key (head :: rest) a ↔ IsFirst key rest a := by
  -- What stands in front in the longer list is what does in the rest, and the other thing.
  constructor
  · rintro ⟨before, after, split, earlier⟩
    cases before with
    | nil => simp at split; exact absurd (congrArg key split.1) other
    | cons first before =>
      simp only [List.cons_append, List.cons.injEq] at split
      exact ⟨before, after, split.2, fun b member => earlier b (by simp [member])⟩
  · rintro ⟨before, after, rfl, earlier⟩
    refine ⟨head :: before, after, rfl, ?_⟩
    intro b member
    rcases List.mem_cons.mp member with rfl | member
    · exact other
    · exact earlier b member

/-- A thing of the key of the first one is that one. -/
theorem isFirst_cons_same {key : α → κ} {head a : α} {rest : List α} (same : key head = key a) :
    IsFirst key (head :: rest) a ↔ a = head := by
  -- Anything further behind would have the first thing in front of it.
  constructor
  · rintro ⟨before, after, split, earlier⟩
    cases before with
    | nil => simp at split; exact split.1.symm
    | cons first before =>
      simp only [List.cons_append, List.cons.injEq] at split
      exact absurd (split.1 ▸ same) (earlier first (by simp))
  · rintro rfl
    exact isFirst_head key a rest

/-- There is only one first thing of a key. -/
theorem IsFirst.eq_of_key {key : α → κ} {list : List α} {a b : α} (first : IsFirst key list a)
    (second : IsFirst key list b) (same : key a = key b) : a = b := by
  -- Down to the first thing of the key, both are first in the rest.
  induction list with
  | nil => exact absurd first.mem (by simp)
  | cons head rest ih =>
    by_cases here : key head = key a
    · rw [(isFirst_cons_same here).mp first, (isFirst_cons_same (here.trans same)).mp second]
    · exact ih ((isFirst_cons here).mp first) ((isFirst_cons (same ▸ here)).mp second)

/-- Each key of a list has a first thing. -/
theorem exists_isFirst (key : α → κ) {list : List α} {a : α} (member : a ∈ list) :
    ∃ first, IsFirst key list first ∧ key first = key a := by
  -- It is the head, or it is found in the rest.
  induction list with
  | nil => simp at member
  | cons head rest ih =>
    by_cases same : key head = key a
    · exact ⟨head, isFirst_head key head rest, same⟩
    · have inRest : a ∈ rest := by
        rcases List.mem_cons.mp member with rfl | inRest
        · exact absurd rfl same
        · exact inRest
      obtain ⟨first, found, sameKey⟩ := ih inRest
      exact ⟨first, (isFirst_cons (sameKey ▸ same)).mpr found, sameKey⟩

/-- Where things of one key are kept together, those that come first are those that did before. -/
theorem isFirst_filter {key : α → κ} {keep : α → Bool} {list : List α} {a : α}
    (together : ∀ a b, key a = key b → keep a = keep b) :
    IsFirst key (list.filter keep) a ↔ IsFirst key list a ∧ keep a = true := by
  -- A thing in front that is left out takes all of its key with it.
  induction list with
  | nil => simp [IsFirst]
  | cons head rest ih =>
    by_cases same : key head = key a
    · have alike := together head a same
      rw [isFirst_cons_same same]
      by_cases kept : keep head = true
      · rw [List.filter_cons_of_pos kept, isFirst_cons_same same, ← alike]
        exact (and_iff_left kept).symm
      · rw [List.filter_cons_of_neg kept, ih, ← alike]
        simp [kept]
    · rw [isFirst_cons same, ← ih]
      by_cases kept : keep head = true
      · rw [List.filter_cons_of_pos kept, isFirst_cons same]
      · rw [List.filter_cons_of_neg kept]

section Taking

variable [BEq κ] [LawfulBEq κ]

/-- What is taken besides keys seen before is the first thing of each other key. -/
theorem mem_firstsAfter {key : α → κ} {list : List α} {a : α} (seen : List κ) :
    a ∈ firstsAfter key seen list ↔ key a ∉ seen ∧ IsFirst key list a := by
  -- A key counts as seen from its first thing on, whether or not that one is taken.
  induction list generalizing seen with
  | nil => simp [firstsAfter, IsFirst]
  | cons head rest ih =>
    by_cases same : key head = key a
    · simp only [firstsAfter, isFirst_cons_same same, List.contains_iff_mem]
      split
      · rename_i old
        rw [ih]
        constructor
        · exact fun taken => absurd (same ▸ old) taken.1
        · exact fun taken => absurd (same ▸ old) taken.1
      · rename_i fresh
        simp only [List.mem_cons, ih, same, true_or, not_true_eq_false, false_and, or_false]
        exact ⟨fun here => ⟨same ▸ fresh, here⟩, fun taken => taken.2⟩
    · have apart : a ≠ head := fun equal => same (congrArg key equal).symm
      simp only [firstsAfter, isFirst_cons same, List.contains_iff_mem]
      split
      · exact ih seen
      · simp only [List.mem_cons, apart, false_or, ih, Ne.symm same]

/-- What is taken of a list is the first thing of each key. -/
theorem mem_firsts {key : α → κ} {list : List α} {a : α} :
    a ∈ firsts key list ↔ IsFirst key list a := by
  simp [firsts, mem_firstsAfter]

/-- No key is taken twice, nor one that was seen before. -/
theorem firstsAfter_keys_nodup (key : α → κ) (seen : List κ) (list : List α) :
    ((firstsAfter key seen list).map key).Nodup := by
  -- A key that is taken counts as seen from then on.
  induction list generalizing seen with
  | nil => simp [firstsAfter]
  | cons head rest ih =>
    simp only [firstsAfter]
    split
    · exact ih seen
    · simp only [List.map_cons, List.nodup_cons]
      refine ⟨?_, ih _⟩
      intro again
      obtain ⟨a, taken, same⟩ := List.mem_map.mp again
      exact ((mem_firstsAfter _).mp taken).1 (by simp [same])

/-- No key is taken twice. -/
theorem firsts_keys_nodup (key : α → κ) (list : List α) : ((firsts key list).map key).Nodup :=
  -- With no key taken before, this is the law for taking on.
  firstsAfter_keys_nodup key [] list

/-- Where no key occurs twice, everything is taken. -/
theorem firstsAfter_eq_self {key : α → κ} {seen : List κ} {list : List α}
    (fresh : ∀ a ∈ list, key a ∉ seen) (once : (list.map key).Nodup) :
    firstsAfter key seen list = list := by
  -- No key is seen when its thing is reached.
  induction list generalizing seen with
  | nil => rfl
  | cons head rest ih =>
    simp only [List.map_cons, List.nodup_cons] at once
    have unseen : ¬ seen.contains (key head) = true := by
      simpa using fresh head (by simp)
    rw [firstsAfter, if_neg unseen, ih ?_ once.2]
    intro a member
    simp only [List.mem_cons, not_or]
    exact ⟨fun same => once.1 (List.mem_map.mpr ⟨a, member, same⟩), fresh a (by simp [member])⟩

/-- Where no key occurs twice, each thing is the first of its key. -/
theorem firsts_eq_self {key : α → κ} {list : List α} (once : (list.map key).Nodup) :
    firsts key list = list :=
  -- With no key taken before, this is the law for taking on.
  firstsAfter_eq_self (by simp) once

end Taking

section Sorting

variable (key : α → List String)

/-- Things are in order when the key of the later one is not smaller. -/
private theorem inOrder_iff (a b : α) : (!decide (key b < key a)) = true ↔ key a ≤ key b := by
  -- The order is linear.
  simp [not_lt]

/-- Sorting keeps everything. -/
theorem sort_perm (list : List α) : (sort key list).Perm list :=
  List.mergeSort_perm list _

/-- What is sorted is what there was. -/
@[simp] theorem mem_sort {list : List α} {a : α} : a ∈ sort key list ↔ a ∈ list :=
  (sort_perm key list).mem_iff

/-- Sorting by keys puts them in order, and leaves the things of one key as they stand. -/
theorem sort_isStableSort (list : List α) : IsStableSort key list (sort key list) := by
  -- The sort needs the order to be transitive and total, which that of keys is.
  have transitive : ∀ a b c : α, (!decide (key b < key a)) = true →
      (!decide (key c < key b)) = true → (!decide (key c < key a)) = true := by
    intro a b c first second
    rw [inOrder_iff] at first second ⊢
    exact le_trans first second
  have total : ∀ a b : α, ((!decide (key b < key a)) || (!decide (key a < key b))) = true := by
    intro a b
    rw [Bool.or_eq_true, inOrder_iff, inOrder_iff]
    exact le_total (key a) (key b)
  refine ⟨sort_perm key list, ?_, ?_⟩
  · exact (List.pairwise_mergeSort transitive total list).imp fun inOrder =>
      (inOrder_iff key _ _).mp inOrder
  · -- The things of one key are in order already, so they are a sublist of the sorted list too.
    intro value
    have kept : (list.filter (key · = value)).Sublist (sort key list) := by
      apply List.sublist_mergeSort transitive total
      · apply List.pairwise_of_forall_mem_list
        intro a memberA b memberB
        simp only [List.mem_filter, decide_eq_true_eq] at memberA memberB
        rw [inOrder_iff, memberA.2, memberB.2]
      · exact List.filter_sublist
    have inside := kept.filter (key · = value)
    rw [List.filter_filter] at inside
    simp only [Bool.and_self] at inside
    exact (inside.eq_of_length ((sort_perm key list).filter _).length_eq.symm).symm

/-- What is in order stays as it is. -/
theorem sort_eq_self {list : List α} (ordered : list.Pairwise fun a b => key a ≤ key b) :
    sort key list = list :=
  -- Sorting is stable, so it moves nothing that is in order.
  List.mergeSort_of_pairwise (ordered.imp fun inOrder => (inOrder_iff key _ _).mpr inOrder)

/-- Where no key occurs twice, sorting puts the keys in strict order. -/
theorem sort_strict {list : List α} (once : (list.map key).Nodup) :
    (sort key list).Pairwise fun a b => key a < key b := by
  -- In order and without a key that occurs twice is in strict order.
  have apart : ((sort key list).map key).Nodup := ((sort_perm key list).map key).nodup_iff.mpr once
  exact ((sort_isStableSort key list).ordered.and (List.pairwise_map.mp apart)).imp
    fun ⟨le, ne⟩ => lt_of_le_of_ne le ne

end Sorting

end Keyed

end IndexAudit
