import IndexAudit.Code.Bracket
import IndexAudit.Code.Segment
import Mathlib.Tactic.SplitIfs

/-!
Code in which each bracket is closed.

Such code can be put in brackets, and what stands inside its own brackets neither divides a list of
parameters nor ends a member of a body.
-/

namespace IndexAudit

namespace Glyph

/--
Code in which brackets match.

With `angled` set angles match too, heads of arrows apart. Without `commas` none of them stands
outside the brackets.
-/
inductive Balanced (angled : Bool) : Bool → List Glyph → Prop
  | nil {commas : Bool} : Balanced angled commas []
  | level {commas : Bool} {glyph : Glyph} {rest : List Glyph}
      (flat : bracketOf glyph.shown = .level)
      (noAngle : angled = true → glyph.shown ≠ '<' ∧ glyph.shown ≠ '>')
      (noComma : glyph.shown = ',' → commas = true) (later : Balanced angled commas rest) :
      Balanced angled commas (glyph :: rest)
  | arrow {commas : Bool} {rest : List Glyph} (later : Balanced angled commas rest) :
      Balanced angled commas (plain '-' :: plain '>' :: rest)
  | group {commas : Bool} {opens closes : Char} {inner rest : List Glyph}
      (pair : (opens, closes) ∈ [('(', ')'), ('[', ']'), ('{', '}')])
      (inside : Balanced angled true inner) (later : Balanced angled commas rest) :
      Balanced angled commas (plain opens :: (inner ++ plain closes :: rest))
  | angles {commas : Bool} {inner rest : List Glyph} (isAngled : angled = true)
      (inside : Balanced angled true inner) (noArrow : ∀ glyph ∈ inner.getLast?, glyph.shown ≠ '-')
      (later : Balanced angled commas rest) :
      Balanced angled commas (plain '<' :: (inner ++ plain '>' :: rest))

namespace Balanced

variable {angled commas : Bool} {front back : List Glyph}

/-- Balanced code behind other such code is balanced with it. -/
theorem append (left : Balanced angled commas front) (right : Balanced angled commas back) :
    Balanced angled commas (front ++ back) := by
  -- What comes first stays first, so the induction is on how the front is balanced.
  induction left with
  | nil => exact right
  | level flat noAngle noComma _ ih => exact .level flat noAngle noComma (ih right)
  | arrow _ ih => exact .arrow (ih right)
  | group pair inside _ _ ih => simpa using Balanced.group pair inside (ih right)
  | angles isAngled inside noArrow _ _ ih =>
    simpa using Balanced.angles isAngled inside noArrow (ih right)

/-- Code is balanced whether commas are allowed outside its brackets or not. -/
theorem withCommas (balanced : Balanced angled commas front) : Balanced angled true front := by
  -- Only single glyphs may be commas, so the other cases stay as they are.
  induction balanced with
  | nil => exact .nil
  | level flat noAngle _ _ ih => exact .level flat noAngle (fun _ => rfl) ih
  | arrow _ ih => exact .arrow ih
  | group pair inside _ _ ih => exact .group pair inside ih
  | angles isAngled inside noArrow _ _ ih => exact .angles isAngled inside noArrow ih

/-- Where there are neither angles nor commas, it is enough that brackets match. -/
theorem withAngles (balanced : Balanced angled commas front)
    (apart : ∀ glyph ∈ front, glyph.shown ≠ '<' ∧ glyph.shown ≠ '>' ∧ glyph.shown ≠ ',') :
    Balanced true false front := by
  induction balanced with
  | nil => exact .nil
  | level flat _ _ _ ih =>
    obtain ⟨⟨noOpening, noClosing, noComma⟩, later⟩ := List.forall_mem_cons.mp apart
    exact .level flat (fun _ => ⟨noOpening, noClosing⟩) (fun comma => absurd comma noComma)
      (ih later)
  -- An arrow and a pair of angles hold angles, of which there are none.
  | arrow _ _ => exact absurd rfl (apart (plain '>') (by simp)).2.1
  | group pair _ _ ihInner ih =>
    exact .group pair (ihInner fun glyph member => apart glyph (by simp [member])).withCommas
      (ih fun glyph member => apart glyph (by simp [member]))
  | angles _ _ _ _ _ _ => exact absurd rfl (apart (plain '<') (by simp)).1

/-- Where angles match, brackets match by themselves. -/
theorem withoutAngles (balanced : Balanced true commas front) : Balanced false true front := by
  have flat {c : Char} (level : bracketOf c = .level) {rest : List Glyph}
      (later : Balanced false true rest) : Balanced false true (plain c :: rest) :=
    .level level (by simp) (fun _ => rfl) later
  induction balanced with
  | nil => exact .nil
  | level level _ _ _ ih => exact .level level (by simp) (fun _ => rfl) ih
  | arrow _ ih => exact flat (by decide) (flat (by decide) ih)
  | group pair _ _ ihInner ih => exact .group pair ihInner ih
  -- Where angles do not nest, the two are characters like others.
  | angles _ _ _ _ ihInner ih =>
    exact flat (by decide) (ihInner.append (flat (by decide) ih))

end Balanced

/-- Glyphs that are no brackets, angles or commas are balanced. -/
theorem balanced_of_flat {angled : Bool} {code : List Glyph}
    (flat : ∀ glyph ∈ code, bracketOf glyph.shown = .level ∧ glyph.shown ≠ '<' ∧
      glyph.shown ≠ '>' ∧ glyph.shown ≠ ',') : Balanced angled false code := by
  -- Each glyph stands for itself, as none of them opens or closes anything.
  induction code with
  | nil => exact .nil
  | cons glyph rest ih =>
    obtain ⟨⟨level, noOpening, noClosing, noComma⟩, later⟩ := List.forall_mem_cons.mp flat
    exact .level level (fun _ => ⟨noOpening, noClosing⟩) (fun comma => absurd comma noComma)
      (ih later)

/-- What the brackets of a pair do. -/
theorem bracketOf_pair {opens closes : Char}
    (pair : (opens, closes) ∈ [('(', ')'), ('[', ']'), ('{', '}')]) :
    bracketOf (plain opens).shown = .opens ∧ bracketOf (plain closes).shown = .closes := by
  -- There are three pairs.
  simp only [List.mem_cons, Prod.mk.injEq, List.not_mem_nil, or_false] at pair
  rcases pair with ⟨rfl, rfl⟩ | ⟨rfl, rfl⟩ | ⟨rfl, rfl⟩ <;> exact ⟨rfl, rfl⟩

/-! Brackets are closed behind the balanced code in them. -/

/-- The closing bracket is found behind balanced code, whatever is open around. -/
theorem closeIndex_balanced {angled commas : Bool} {inner : List Glyph}
    (balanced : Balanced angled commas inner) (depth : Nat) (rest : List Glyph) :
    Nest.closeIndex (fun glyph => bracketOf glyph.shown) (depth + 1) (inner ++ rest) =
      (Nest.closeIndex (fun glyph => bracketOf glyph.shown) (depth + 1) rest).map
        (· + inner.length) := by
  -- The nesting is the same behind each balanced piece, so only the position moves on.
  induction balanced generalizing depth rest with
  | nil => simp
  | level flat _ _ _ ih => simp [Nest.closeIndex, flat, ih, Function.comp_def, Nat.add_assoc]
  | arrow _ ih =>
    have dash : bracketOf (plain '-').shown = .level := rfl
    have head : bracketOf (plain '>').shown = .level := rfl
    simp [Nest.closeIndex, dash, head, ih, Function.comp_def, Nat.add_assoc]
  | group pair _ _ ihInner ihLater =>
    obtain ⟨opens, closes⟩ := bracketOf_pair pair
    simp only [List.cons_append, List.append_assoc, Nest.closeIndex, opens, ihInner, closes,
      ihLater, Option.map_map, List.length_cons, List.length_append]
    congr 1
    funext position
    simp only [Function.comp_apply]
    omega
  | angles _ _ _ _ ihInner ihLater =>
    have opening : bracketOf (plain '<').shown = .level := rfl
    have closing : bracketOf (plain '>').shown = .level := rfl
    simp only [List.cons_append, List.append_assoc, Nest.closeIndex, opening, ihInner, closing,
      ihLater, Option.map_map, List.length_cons, List.length_append]
    congr 1
    funext position
    simp only [Function.comp_apply]
    omega

/-- A bracket is closed behind the balanced code in it. -/
theorem closeIndex_group (opens closes : Char) {angled commas : Bool} {inner : List Glyph}
    (pair : (opens, closes) ∈ [('(', ')'), ('[', ']'), ('{', '}')])
    (balanced : Balanced angled commas inner) (rest : List Glyph) :
    closeIndex (plain opens :: (inner ++ plain closes :: rest)) = some (inner.length + 1) := by
  -- From the opening bracket on, the inner code closes nothing, and the closing one comes behind
  -- it.
  obtain ⟨opening, closing⟩ := bracketOf_pair pair
  simp [closeIndex, Nest.closeIndex, opening, closeIndex_balanced balanced, closing]

/-! Balanced code is not divided. -/

section Split

variable {angled commas : Bool} {part : List Glyph}

/-- The glyph in front of what follows a part. -/
def lastOf (previous : Option Glyph) (part : List Glyph) : Option Glyph :=
  part.getLast?.or previous

@[simp] theorem lastOf_nil (previous : Option Glyph) : lastOf previous [] = previous :=
  rfl

@[simp] theorem lastOf_cons (previous : Option Glyph) (glyph : Glyph) (rest : List Glyph) :
    lastOf previous (glyph :: rest) = lastOf (some glyph) rest := by
  -- The last glyph of a longer rest is the last one of the whole.
  cases rest with
  | nil => rfl
  | cons next rest => simp [lastOf, List.getLast?_cons]

@[simp] theorem lastOf_append (previous : Option Glyph) (front back : List Glyph) :
    lastOf previous (front ++ back) = lastOf (lastOf previous front) back := by
  -- The last glyph is handed from one to the next.
  induction front generalizing previous with
  | nil => rfl
  | cons glyph rest ih => simp [ih]

/-- A glyph that plays no part where code is divided goes to the part behind it. -/
theorem split_level {depth angles : Nat} {previous : Option Glyph} {glyph : Glyph}
    (flat : cutAt ',' angled previous glyph = .bracket .level) (rest : List Glyph) :
    Cut.split (cutAt ',' angled) depth angles previous (glyph :: rest) =
      Cut.extendFirst glyph (Cut.split (cutAt ',' angled) depth angles (some glyph) rest) := by
  -- A glyph that is level and no comma only goes on with its part.
  simp [Cut.split, flat, Nest.after]

/-- Nothing is divided in balanced code, if its commas outside brackets are inside others. -/
theorem split_balanced (balanced : Balanced angled commas part) {depth angles : Nat}
    (enclosed : commas = true → depth ≠ 0 ∨ angles ≠ 0) (previous : Option Glyph)
    (rest : List Glyph) :
    Cut.split (cutAt ',' angled) depth angles previous (part ++ rest) =
      part.foldr Cut.extendFirst
        (Cut.split (cutAt ',' angled) depth angles (lastOf previous part) rest) := by
  induction balanced generalizing depth angles previous rest with
  | nil => rfl
  | @level commas glyph more flat noAngle noComma _ ih =>
    by_cases comma : glyph.shown = ','
    · have cut : cutAt ',' angled previous glyph = .separator := by
        simp [cutAt, comma, show bracketOf ',' = .level from rfl]
      have apart : ¬ (depth = 0 ∧ angles = 0) := by
        have := enclosed (noComma comma)
        omega
      simp [Cut.split, cut, apart, ih enclosed]
    · have cut : cutAt ',' angled previous glyph = .bracket .level := by
        cases angled with
        | false => simp [cutAt, flat, comma]
        | true => simp [cutAt, flat, comma, noAngle rfl]
      rw [List.cons_append, split_level cut, ih enclosed]
      simp
  | @arrow commas more _ ih =>
    have dash : cutAt ',' angled previous (plain '-') = .bracket .level := by
      simp [cutAt, plain, shown, bracketOf]
    have head : cutAt ',' angled (some (plain '-')) (plain '>') = .bracket .level := by
      simp [cutAt, plain, shown, bracketOf]
    rw [List.cons_append, List.cons_append, split_level dash, split_level head, ih enclosed]
    simp
  | @group commas opens closes inner more pair _ _ ihInner ih =>
    obtain ⟨opening, closing⟩ := bracketOf_pair pair
    have opened : cutAt ',' angled previous (plain opens) = .bracket .opens := by
      simp [cutAt, opening]
    have closed (before : Option Glyph) :
        cutAt ',' angled before (plain closes) = .bracket .closes := by simp [cutAt, closing]
    have inside := @ihInner (depth + 1) angles (fun _ => .inl (by omega)) (some (plain opens))
      (plain closes :: (more ++ rest))
    simp only [List.cons_append, List.append_assoc, Cut.split, opened, closed, Nest.after,
      Nat.add_sub_cancel] at inside ⊢
    rw [inside, ih enclosed]
    simp
  | @angles commas inner more isAngled _ noArrow _ ihInner ih =>
    subst isAngled
    have opened : cutAt ',' true previous (plain '<') = .angle .opens := by
      simp [cutAt, plain, shown, bracketOf]
    -- The closing angle is no head of an arrow.
    have closed : cutAt ',' true (lastOf (some (plain '<')) inner) (plain '>') =
        .angle .closes := by
      have apart : (lastOf (some (plain '<')) inner).any (·.shown != '-') = true := by
        cases last : inner.getLast? with
        | none => simp [lastOf, last, plain, shown]
        | some glyph => simpa [lastOf, last] using noArrow glyph last
      simp [cutAt, apart, show (plain '>').shown = '>' from rfl,
        show bracketOf '>' = .level from rfl]
    have inside := @ihInner depth (angles + 1) (fun _ => .inr (by omega)) (some (plain '<'))
      (plain '>' :: (more ++ rest))
    simp only [List.cons_append, List.append_assoc, Cut.split, opened, closed, Nest.after,
      Nat.add_sub_cancel] at inside ⊢
    rw [inside, ih enclosed]
    simp

/-- Code is divided at the comma behind balanced code. -/
theorem split_comma (balanced : Balanced angled false part) (previous : Option Glyph)
    (rest : List Glyph) :
    Cut.split (cutAt ',' angled) 0 0 previous (part ++ plain ',' :: rest) =
      part :: Cut.split (cutAt ',' angled) 0 0 (some (plain ',')) rest := by
  have comma (before : Option Glyph) : cutAt ',' angled before (plain ',') = .separator := by
    simp [cutAt, plain, shown, bracketOf]
  -- The balanced code goes to the part, which ends at the comma behind it.
  rw [split_balanced balanced (by simp), Cut.split, comma]
  simp [Cut.foldr_extendFirst]

/-- Balanced code by itself is one part. -/
theorem split_single (balanced : Balanced angled false part) (previous : Option Glyph) :
    Cut.split (cutAt ',' angled) 0 0 previous part = [part] := by
  -- Nothing follows the code, so it is the first and only part.
  have divided := @split_balanced angled false part balanced 0 0 (by simp) previous []
  rwa [List.append_nil, Cut.split, Cut.foldr_extendFirst, List.append_nil] at divided

/-- Parts with commas between them are divided into themselves. -/
theorem splitTop_intercalate {parts : List (List Glyph)} (filled : parts ≠ [])
    (balanced : ∀ part ∈ parts, Balanced angled false part) :
    splitTop ',' angled ([plain ','].intercalate parts) = parts := by
  unfold splitTop
  -- Behind a comma there is a character in front, so the induction is over any.
  generalize (none : Option Glyph) = previous
  induction parts generalizing previous with
  | nil => exact absurd rfl filled
  | cons part rest ih =>
    obtain ⟨here, later⟩ := List.forall_mem_cons.mp balanced
    cases rest with
    | nil => simpa using split_single here previous
    | cons next rest =>
      rw [List.intercalate_cons_of_ne_nil (by simp), List.append_assoc, List.singleton_append,
        split_comma here, ih (by simp) later]

end Split

end Glyph

namespace Segment

/-- What brackets do to the nesting of members; curly ones do nothing. -/
theorem depthAfter_flat {c : Char} (flat : Glyph.bracketOf c = .level) (depth : Nat) :
    depthAfter depth c = depth := by
  -- A flat character is none of those that open or close.
  have apart : ¬ (c = '(' ∨ c = '[' ∨ c = '{') ∧ ¬ (c = ')' ∨ c = ']' ∨ c = '}') := by
    unfold Glyph.bracketOf at flat
    split_ifs at flat with opens closes
    exact ⟨opens, closes⟩
  simp only [not_or] at apart
  simp [depthAfter, apart]

/-- No member ends inside code that is in brackets, or has nothing outside that ends one. -/
def Stays (depth : Nat) (code : List Glyph) : Prop :=
  depth ≠ 0 ∨ ∀ glyph ∈ code, glyph.shown ≠ ';' ∧ glyph.shown ≠ '\n' ∧ glyph.shown ≠ '{'

/-- No member ends inside parts of such code. -/
theorem Stays.part {depth : Nat} {code part : List Glyph} (stays : Stays depth code)
    (within : ∀ glyph ∈ part, glyph ∈ code) : Stays depth part :=
  -- At a depth nothing is asked, and at none each piece is one of the code.
  stays.imp_right fun all glyph member => all glyph (within glyph member)

/-- A bracket that does not end a member is gone into and left again. -/
theorem depthAfter_pair {opens closes : Char} {depth : Nat} {code : List Glyph}
    (pair : (opens, closes) ∈ [('(', ')'), ('[', ']'), ('{', '}')])
    (stays : Stays depth (Glyph.plain opens :: code)) :
    depthAfter depth opens ≠ 0 ∧ depthAfter (depthAfter depth opens) closes = depth := by
  simp only [List.mem_cons, Prod.mk.injEq, List.not_mem_nil, or_false] at pair
  rcases pair with ⟨rfl, rfl⟩ | ⟨rfl, rfl⟩ | ⟨rfl, rfl⟩
  · simp [depthAfter]
  · simp [depthAfter]
  -- At the top level a brace would open a block, so it stands inside brackets here.
  · have inside : depth ≠ 0 := stays.resolve_right fun all =>
      (all (Glyph.plain '{') (by simp)).2.2 rfl
    simpa [depthAfter] using inside

section Collect

variable {angled commas : Bool} {part : List Glyph} {runsOn : List Char → Bool} {start depth : Nat}
  {current : List Glyph}

/-- A glyph that ends no member goes to the current one. -/
theorem collect_cons {glyph : Glyph} {code : List Glyph} (stays : Stays depth (glyph :: code))
    (rest : List Glyph) :
    collect runsOn start depth current (glyph :: rest) =
      collect runsOn start (depthAfter depth glyph.shown) (glyph :: current) rest := by
  have noBlock : ¬ (depth = 0 ∧ glyph.shown = '{') := by
    rintro ⟨rfl, opens⟩
    exact ((stays.resolve_left (by simp)) glyph (by simp)).2.2 opens
  have noEnd : ¬ (depth = 0 ∧ (glyph.shown = ';' ∨
      glyph.shown = '\n' ∧ ¬ runsOn (Glyph.shownText current.reverse))) := by
    rintro ⟨rfl, ends⟩
    have apart := (stays.resolve_left (by simp)) glyph (by simp)
    exact ends.elim apart.1 fun ends => apart.2.1 ends.1
  -- Neither of the two branches that end a member is taken.
  rw [collect, if_neg noBlock, if_neg noEnd]

/-- Balanced code in which no member ends goes to the current one. -/
theorem collect_balanced (balanced : Glyph.Balanced angled commas part) (stays : Stays depth part)
    (rest : List Glyph) :
    collect runsOn start depth current (part ++ rest) =
      collect runsOn start depth (part.reverse ++ current) rest := by
  induction balanced generalizing depth current rest with
  | nil => rfl
  | level flat _ _ _ ih =>
    rw [List.cons_append, collect_cons stays, depthAfter_flat flat,
      ih (stays.part fun _ => List.mem_cons_of_mem _)]
    simp
  | arrow _ ih =>
    have later := stays.part fun _ => List.mem_cons_of_mem _
    rw [List.cons_append, List.cons_append, collect_cons stays, depthAfter_flat (by decide),
      collect_cons later, depthAfter_flat (by decide),
      ih (later.part fun _ => List.mem_cons_of_mem _)]
    simp
  | @group commas opens closes inner more pair _ _ ihInner ih =>
    obtain ⟨inside, back⟩ := depthAfter_pair pair stays
    have later : Stays depth more := stays.part fun _ member => by simp [member]
    -- Inside the brackets no member ends, and behind them the nesting is as it was.
    rw [List.cons_append, List.append_assoc, List.cons_append, collect_cons stays,
      show (Glyph.plain opens).shown = opens from rfl, ihInner (.inl inside),
      collect_cons (show Stays _ [_] from .inl inside),
      show (Glyph.plain closes).shown = closes from rfl, back, ih later]
    simp
  | @angles commas inner more _ _ _ _ ihInner ih =>
    have within : Stays depth inner := stays.part fun _ member => by simp [member]
    have closing : Stays depth [Glyph.plain '>'] := stays.part fun _ member => by
      simp [List.mem_singleton.mp member]
    have later : Stays depth more := stays.part fun _ member => by simp [member]
    rw [List.cons_append, List.append_assoc, List.cons_append, collect_cons stays,
      depthAfter_flat (by decide), ihInner within, collect_cons closing,
      depthAfter_flat (by decide), ih later]
    simp

/-- Balanced code in parentheses belongs to the current member, whatever it holds. -/
theorem collect_round (balanced : Glyph.Balanced angled commas part) (rest : List Glyph) :
    collect runsOn start 0 current (Glyph.plain '(' :: (part ++ Glyph.plain ')' :: rest)) =
      collect runsOn start 0 ((Glyph.plain '(' :: (part ++ [Glyph.plain ')'])).reverse ++ current)
        rest := by
  have opening : Stays 0 [Glyph.plain '('] := .inr (by decide)
  have inside : depthAfter 0 (Glyph.plain '(').shown = 1 := rfl
  have behind : depthAfter 1 (Glyph.plain ')').shown = 0 := rfl
  -- The parentheses take the code one deeper, where nothing ends the member, and back.
  rw [collect_cons opening, inside, collect_balanced balanced (.inl (by decide)),
    collect_cons (show Stays 1 [_] from .inl (by decide)), behind]
  simp

end Collect

end Segment

end IndexAudit
