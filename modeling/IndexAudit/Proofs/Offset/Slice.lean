import IndexAudit.Code.Glyph
import IndexAudit.Text.CharRun

/-!
Texts cut at byte offsets.

A cut fails where the offset lies inside a character or behind the end of the text.
-/

namespace IndexAudit

/-- Something that takes up room in a list: a character its bytes, a token one place. -/
class Sized (α : Type) where
  size : α → Nat
  positive : ∀ x, 0 < size x

/-- A character takes up the bytes of its UTF-8 form. -/
instance : Sized Char where
  size := Char.utf8Size
  positive := Char.utf8Size_pos

/-- A character of code takes up as many bytes hidden as not. -/
instance : Sized Glyph where
  size := fun glyph => glyph.char.utf8Size
  positive := fun glyph => glyph.char.utf8Size_pos

variable {α : Type} [Sized α]

/-- How many bytes a text takes up. -/
def width (text : List α) : Nat :=
  (text.map Sized.size).foldr (· + ·) 0

/-- The parts of a text before and behind an offset. -/
def cut? (offset : Nat) : List α → Option (List α × List α)
  | [] => if offset = 0 then some ([], []) else none
  | x :: rest =>
    if offset = 0 then some ([], x :: rest)
    else if Sized.size x ≤ offset then
      (cut? (offset - Sized.size x) rest).map fun (front, back) => (x :: front, back)
    else none

/-- The part of a text before an offset. -/
def before? (offset : Nat) (text : List α) : Option (List α) :=
  (cut? offset text).map (·.1)

/-- The part of a text from an offset on. -/
def from? (offset : Nat) (text : List α) : Option (List α) :=
  (cut? offset text).map (·.2)

/-- The part of a text between two offsets, the first of which may not lie behind the second. -/
def slice? (start stop : Nat) (text : List α) : Option (List α) :=
  (before? stop text).bind (from? start)

/-- Nothing takes up no bytes. -/
@[simp] theorem width_nil : width ([] : List α) = 0 :=
  rfl

/-- The first element takes up its bytes, and what follows takes up the others. -/
@[simp] theorem width_cons (x : α) (rest : List α) :
    width (x :: rest) = Sized.size x + width rest :=
  rfl

/-- Two texts behind each other take up the bytes of both. -/
@[simp] theorem width_append (front back : List α) : width (front ++ back) = width front + width back := by
  -- cons x front ih|The bytes of each element are counted once, in front.
  induction front with
  | nil => exact (Nat.zero_add _).symm
  | cons x front ih => rw [List.cons_append, width_cons, width_cons, ih, Nat.add_assoc]

/-- Code takes up the bytes of its text. -/
theorem width_text (code : List Glyph) : width (Glyph.text code) = width code := by
  simp only [width, Glyph.text, List.map_map]
  rfl

/-- No text has more elements than bytes. -/
theorem length_le_width (text : List α) : text.length ≤ width text := by
  -- Each element takes up a byte at least.
  induction text with
  | nil => exact Nat.le_refl _
  | cons x rest ih =>
    have positive := Sized.positive x
    rw [List.length_cons, width_cons]
    omega

/-- What takes up no bytes is empty. -/
theorem eq_nil_of_width {text : List α} (none : width text = 0) : text = [] :=
  -- A text is no longer than it is wide.
  List.eq_nil_of_length_eq_zero (Nat.le_zero.mp (none ▸ length_le_width text))

/-- A text is cut where a part of it ends. -/
theorem cut?_width (front back : List α) : cut? (width front) (front ++ back) = some (front, back) := by
  induction front with
  | nil => cases back <;> rfl
  | cons x front ih =>
    -- The first element takes up a byte, so the cut is behind it.
    have positive := Sized.positive x
    simp only [width_cons, List.cons_append, cut?]
    rw [if_neg (by omega), if_pos (Nat.le_add_right _ _), Nat.add_sub_cancel_left, ih]
    rfl

/-- The part in front of a place is what is before its offset. -/
theorem before?_width (front back : List α) : before? (width front) (front ++ back) = some front := by
  rw [before?, cut?_width]
  rfl

/-- The part behind a place is what is from its offset on. -/
theorem from?_width (front back : List α) : from? (width front) (front ++ back) = some back := by
  rw [from?, cut?_width]
  rfl

/-- The first elements of a text are what is before the offset behind them. -/
theorem before?_take (count : Nat) (text : List α) :
    before? (width (text.take count)) text = some (text.take count) := by
  -- The text is its first elements and the others.
  have whole := before?_width (text.take count) (text.drop count)
  rwa [List.take_append_drop] at whole

/-- The elements of a kind at the start of a text are what is before the offset behind them. -/
theorem before?_takeWhile (p : α → Bool) (text : List α) :
    before? (width (text.takeWhile p)) text = some (text.takeWhile p) := by
  -- The text is the run at its start and what stops it.
  have whole := before?_width (text.takeWhile p) (text.dropWhile p)
  rwa [List.takeWhile_append_dropWhile] at whole

/-- What follows the elements of a kind is what is from the offset behind them on. -/
theorem from?_takeWhile (p : α → Bool) (text : List α) :
    from? (width (text.takeWhile p)) text = some (text.dropWhile p) := by
  -- The text is the run at its start and what stops it.
  have whole := from?_width (text.takeWhile p) (text.dropWhile p)
  rwa [List.takeWhile_append_dropWhile] at whole

/-- What stands between two places is the slice between their offsets. -/
theorem slice?_width (front part back : List α) :
    slice? (width front) (width front + width part) (front ++ part ++ back) = some part := by
  -- The slice is cut at its end first, and then at its start.
  rw [slice?, ← width_append, before?_width, Option.bind_some, from?_width]

/-- What stands behind the front of a part is the slice from its end to that of the part. -/
theorem slice?_behind (front taken left back : List α) :
    slice? (width front + width taken) (width front + width (taken ++ left))
        (front ++ (taken ++ left) ++ back) = some left := by
  -- What is taken counts towards the front.
  rw [width_append taken, ← Nat.add_assoc, ← width_append front, ← List.append_assoc front]
  exact slice?_width (front ++ taken) left back

/-- What is read of each element without fail is read of all of them. -/
theorem mapM_total {β γ : Type} {read? : β → Option γ} {read : β → γ}
    (total : ∀ x, read? x = some (read x)) (list : List β) : list.mapM read? = some (list.map read) := by
  -- A reader that never fails is the pure one.
  rw [show read? = fun x => some (read x) from funext total]
  exact List.mapM_pure

/--
The elements of a list between two places.

It fails if the second place lies in front of the first one or behind the end.
-/
def between? {β : Type} (start stop : Nat) (list : List β) : Option (List β) :=
  if start ≤ stop ∧ stop ≤ list.length then some ((list.take stop).drop start) else none

/-- The elements between two places of a list. -/
theorem between?_length {β : Type} (front part back : List β) :
    between? front.length (front.length + part.length) (front ++ part ++ back) = some part := by
  rw [between?, if_pos (by simp), ← List.length_append, List.take_left, List.drop_left]

/-- The elements behind a place of a list. -/
theorem between?_drop {β : Type} {place : Nat} {list : List β} (within : place ≤ list.length) :
    between? place list.length list = some (list.drop place) := by
  rw [between?, if_pos ⟨within, Nat.le_refl _⟩, List.take_length]

end IndexAudit
