import IndexAudit.Proofs.Code.Annotation
import IndexAudit.Proofs.Code.Following
import Mathlib.Data.List.Infix

/-!
Code that closes each bracket it opens.

Where a bracket is closed, nothing behind the code bears on what the bracket encloses: not on the
arguments of an annotation, and not on the block that stands first outside other brackets.
-/

namespace IndexAudit

/-- An end of a list begins behind an element of it, or in front of that. -/
theorem suffix_append_cons {α : Type} {front rest part : List α} {x : α}
    (ends : part <:+ front ++ x :: rest) :
    part <:+ rest ∨ ∃ inner, inner <:+ front ∧ part = inner ++ x :: rest := by
  induction front with
  | nil =>
    rcases List.suffix_cons_iff.mp ends with rfl | ends
    · exact .inr ⟨[], List.suffix_refl _, rfl⟩
    · exact .inl ends
  | cons first front ih =>
    rcases List.suffix_cons_iff.mp ends with rfl | ends
    · exact .inr ⟨first :: front, List.suffix_refl _, rfl⟩
    -- An end that holds the element begins somewhere in front of it.
    · refine (ih ends).imp_right ?_
      rintro ⟨inner, isEnd, rfl⟩
      exact ⟨inner, isEnd.trans (List.suffix_cons first front), rfl⟩

/-- A bracket that is closed stays closed where it is, with more behind. -/
theorem Nest.closeIndex_append {α : Type} {nest : α → Nest} {depth position : Nat} {front : List α}
    (closed : closeIndex nest depth front = some position) (back : List α) :
    closeIndex nest depth (front ++ back) = some position := by
  induction front generalizing depth position with
  | nil => cases closed
  | cons x rest ih =>
    rw [List.cons_append, closeIndex.eq_def] at *
    simp only at closed ⊢
    -- The five cases are those of the search; only those that go on need what is behind.
    split at closed
    · obtain ⟨inner, found, rfl⟩ := Option.map_eq_some_iff.mp closed
      rw [ih found]
      rfl
    · obtain ⟨inner, found, rfl⟩ := Option.map_eq_some_iff.mp closed
      rw [ih found]
      rfl
    · cases closed
    · exact closed
    · obtain ⟨inner, found, rfl⟩ := Option.map_eq_some_iff.mp closed
      rw [ih found]
      rfl

/-- A closing bracket is one of the list. -/
theorem Nest.closeIndex_lt {α : Type} {nest : α → Nest} {depth position : Nat} {list : List α}
    (closed : closeIndex nest depth list = some position) : position < list.length := by
  induction list generalizing depth position with
  | nil => cases closed
  | cons x rest ih =>
    -- Where the search goes on, the place is one more than that in the rest.
    have further {inner depth : Nat} (found : closeIndex nest depth rest = some inner) :
        inner + 1 < (x :: rest).length := by
      simpa using ih found
    rw [closeIndex.eq_def] at closed
    simp only at closed
    split at closed
    · obtain ⟨inner, found, rfl⟩ := Option.map_eq_some_iff.mp closed
      exact further found
    · obtain ⟨inner, found, rfl⟩ := Option.map_eq_some_iff.mp closed
      exact further found
    · cases closed
    · obtain rfl := Option.some.inj closed
      simp
    · obtain ⟨inner, found, rfl⟩ := Option.map_eq_some_iff.mp closed
      exact further found

namespace Glyph

/-- Each bracket that code opens it closes. -/
def ClosesBrackets (code : List Glyph) : Prop :=
  ∀ part, part <:+ code → (part.head?.any fun glyph => bracketOf glyph.shown = .opens) = true →
    (closeIndex part).isSome = true

/-- The end of such code closes its brackets, too. -/
theorem ClosesBrackets.suffix {code part : List Glyph} (closes : ClosesBrackets code)
    (ends : part <:+ code) : ClosesBrackets part :=
  -- The end of an end is an end of the whole.
  fun inner isEnd opens => closes inner (isEnd.trans ends) opens

/-- Each parenthesis that code opens it closes. -/
def ClosesRound (code : List Glyph) : Prop :=
  ∀ part, part <:+ code → (part.head?.any fun glyph => glyph.shown = '(') = true →
    (closeIndex part).isSome = true

/-- Whether parentheses are closed is decided by looking behind each of them. -/
instance (code : List Glyph) : Decidable (ClosesRound code) :=
  decidable_of_iff (∀ part ∈ code.tails, (part.head?.any fun glyph => glyph.shown = '(') = true →
      (closeIndex part).isSome = true) (by simp only [List.mem_tails, ClosesRound])

/-- The end of such code closes its parentheses, too. -/
theorem ClosesRound.suffix {code part : List Glyph} (closes : ClosesRound code)
    (ends : part <:+ code) : ClosesRound part :=
  -- The end of an end is an end of the whole.
  fun inner isEnd opens => closes inner (isEnd.trans ends) opens

/-- Parentheses are brackets. -/
theorem ClosesBrackets.closesRound {code : List Glyph} (closes : ClosesBrackets code) :
    ClosesRound code := by
  intro part ends opens
  -- A parenthesis that opens is a bracket that opens.
  refine closes part ends ?_
  cases part with
  | nil => cases opens
  | cons glyph rest =>
    have shown : glyph.shown = '(' := of_decide_eq_true opens
    simp [shown, bracketOf]

/-- Balanced code closes its brackets. -/
theorem Balanced.closesBrackets {angled commas : Bool} {code : List Glyph}
    (balanced : Balanced angled commas code) : ClosesBrackets code := by
  have flat {glyph : Glyph} {rest : List Glyph} (level : bracketOf glyph.shown = .level)
      (later : ClosesBrackets rest) : ClosesBrackets (glyph :: rest) := by
    intro part ends opens
    rcases List.suffix_cons_iff.mp ends with rfl | ends
    · simp [level] at opens
    · exact later part ends opens
  -- What is opened inside a pair of brackets is closed there.
  have inBrackets {inner rest : List Glyph} {closes : Glyph}
      (noOpening : bracketOf closes.shown ≠ .opens) (inside : ClosesBrackets inner)
      (later : ClosesBrackets rest) : ClosesBrackets (inner ++ closes :: rest) := by
    intro part ends opens
    rcases suffix_append_cons ends with ends | ⟨outer, isEnd, rfl⟩
    · exact later part ends opens
    · cases outer with
      | nil => simp [noOpening] at opens
      | cons glyph outer =>
        obtain ⟨position, closed⟩ := Option.isSome_iff_exists.mp
          (inside (glyph :: outer) isEnd (by simpa using opens))
        have closed := Nest.closeIndex_append closed (closes :: rest)
        rw [closeIndex]
        exact Option.isSome_of_mem closed
  -- Each end of the code begins inside a part of it, in front of that part or behind it.
  induction balanced with
  | nil =>
    intro part ends opens
    simp [List.suffix_nil.mp ends] at opens
  | level level _ _ _ ih => exact flat level ih
  | arrow _ ih => exact flat (by decide) (flat (by decide) ih)
  | @group commas opens closes inner rest pair inside _ ihInner ih =>
    intro part ends isOpening
    rcases List.suffix_cons_iff.mp ends with rfl | ends
    · simp [closeIndex_group opens closes pair inside]
    · refine inBrackets ?_ ihInner ih part ends isOpening
      simp [(bracketOf_pair pair).2]
  | angles _ _ _ _ ihInner ih => exact flat (by decide) (inBrackets (by decide) ihInner ih)

end Glyph

/-! Annotations and their arguments. -/

namespace AnnotationUse

/-- White space ends where it ends without the code behind, if it ends at all. -/
theorem skipSpacing_append {code : List Glyph} (filled : skipSpacing code ≠ [])
    (back : List Glyph) : skipSpacing (code ++ back) = skipSpacing code ++ back := by
  -- Dropping stops inside of the front, so what is behind stays as it is.
  rw [skipSpacing, List.dropWhile_append, if_neg (by simpa [skipSpacing] using filled), skipSpacing]

/-- White space goes on with what stands behind it. -/
theorem skipSpacing_append_blank {code : List Glyph} (blank : skipSpacing code = [])
    (back : List Glyph) : skipSpacing (code ++ back) = skipSpacing back := by
  -- Dropping goes through the front, so it goes on in what is behind.
  rw [skipSpacing, List.dropWhile_append, if_pos (by simpa [skipSpacing] using blank), skipSpacing]

/-- Arguments are read as they stand in code that closes its parentheses. -/
theorem readArguments_behind {code back : List Glyph} (closes : Glyph.ClosesRound code)
    (apart : skipSpacing code = [] → Begins back) :
    readArguments (code ++ back) = ((readArguments code).1, (readArguments code).2 ++ back) := by
  cases visible : skipSpacing code with
  | nil =>
    -- There is nothing but white space, and no arguments begin behind it either.
    have nothing : ∀ glyph ∈ (skipSpacing (code ++ back)).head?, glyph.shown ≠ '(' := by
      rw [skipSpacing_append_blank visible]
      exact apart visible
    have alone : readArguments code = (none, code) := by simp [readArguments, visible]
    rw [alone, readArguments]
    split
    · rfl
    · rename_i glyph rest start
      rw [if_neg (nothing glyph (by simp [start]))]
  | cons glyph rest =>
    have start : skipSpacing (code ++ back) = glyph :: (rest ++ back) := by
      rw [skipSpacing_append (by simp [visible]), visible, List.cons_append]
    simp only [readArguments, visible, start]
    by_cases opens : glyph.shown = '('
    · have ends : glyph :: rest <:+ code := visible ▸ List.dropWhile_suffix _
      obtain ⟨close, closed⟩ := Option.isSome_iff_exists.mp
        (closes (glyph :: rest) ends (by simp [opens]))
      -- The closing bracket is in the code, so it is the same with more code behind.
      have whole : Glyph.closeIndex (glyph :: (rest ++ back)) = some close :=
        Nest.closeIndex_append closed back
      have within : close ≤ rest.length := Nat.le_of_lt_succ (Nest.closeIndex_lt closed)
      simp only [opens, if_true, closed, whole]
      rw [List.take_append_of_le_length (by omega), List.drop_append_of_le_length within]
    · simp [opens]

/-- An annotation is read as it stands in code that closes its parentheses. -/
theorem read?_behind {code back : List Glyph} (closes : Glyph.ClosesRound code)
    (behind : Glyph.IsBehind back)
    (apart : ∀ first after, read? code = some (first, after) → first.args = none →
      skipSpacing after = [] → Begins back) :
    read? (code ++ back) = (read? code).map fun read => (read.1, read.2 ++ back) := by
  cases code with
  | nil =>
    cases back with
    | nil => rfl
    | cons glyph back =>
      have apart : glyph.shown ≠ '@' := by
        simpa using behind.stops (p := fun c => decide (c = '@')) (by decide) glyph rfl
      simp [read?, apart]
  | cons glyph rest =>
    have stops := behind.stops (p := isNameChar) (by decide)
    have name := @takeWhile_append_stop _ (fun g : Glyph => isNameChar g.shown) rest back stops
    have left := @drop_takeWhile_append _ (fun g : Glyph => isNameChar g.shown) rest back stops
    rw [name] at left
    simp only [List.cons_append, read?, name, left]
    split
    case isFalse => rfl
    case isTrue marked =>
      have ends : rest.drop (rest.takeWhile fun g => isNameChar g.shown).length <:+
          glyph :: rest := (List.drop_suffix _ rest).trans (List.suffix_cons glyph rest)
      rw [readArguments_behind (closes.suffix ends)]
      · rfl
      · intro blank
        -- Without arguments, what follows the name follows the annotation.
        have alone : readArguments (rest.drop (rest.takeWhile fun g => isNameChar g.shown).length) =
            (none, rest.drop (rest.takeWhile fun g => isNameChar g.shown).length) := by
          simp [readArguments, blank]
        refine apart _ _ (if_pos marked) ?_ ?_
        · rw [alone]
        · rw [alone]
          exact blank

end AnnotationUse

/-! The nesting behind balanced code. -/

namespace Segment

/-- The nesting of round and square brackets behind code. -/
def depthBehind (depth : Nat) (code : List Glyph) : Nat :=
  code.foldl (fun depth glyph => depthAfter depth glyph.shown) depth

@[simp] theorem depthBehind_nil (depth : Nat) : depthBehind depth [] = depth :=
  rfl

@[simp] theorem depthBehind_cons (depth : Nat) (glyph : Glyph) (rest : List Glyph) :
    depthBehind depth (glyph :: rest) = depthBehind (depthAfter depth glyph.shown) rest :=
  rfl

@[simp] theorem depthBehind_append (depth : Nat) (front back : List Glyph) :
    depthBehind depth (front ++ back) = depthBehind (depthBehind depth front) back := by
  rw [depthBehind, List.foldl_append]
  rfl

/-- Balanced code leaves the nesting as it was. -/
theorem depthBehind_balanced {angled commas : Bool} {code : List Glyph}
    (balanced : Glyph.Balanced angled commas code) (depth : Nat) :
    depthBehind depth code = depth := by
  induction balanced generalizing depth with
  | nil => rfl
  | level flat _ _ _ ih => rw [depthBehind_cons, depthAfter_flat flat, ih]
  | arrow _ ih =>
    rw [depthBehind_cons, depthBehind_cons, depthAfter_flat (by decide),
      depthAfter_flat (by decide), ih]
  | @group commas opens closes inner rest pair _ _ ihInner ih =>
    -- Braces count no more than other characters here, the other brackets up and down.
    have back : depthAfter (depthAfter depth opens) closes = depth := by
      simp only [List.mem_cons, Prod.mk.injEq, List.not_mem_nil, or_false] at pair
      rcases pair with ⟨rfl, rfl⟩ | ⟨rfl, rfl⟩ | ⟨rfl, rfl⟩ <;> simp [depthAfter]
    rw [depthBehind_cons, depthBehind_append, ihInner, depthBehind_cons,
      show (Glyph.plain opens).shown = opens from rfl,
      show (Glyph.plain closes).shown = closes from rfl, back, ih]
  | angles _ _ _ _ ihInner ih =>
    rw [depthBehind_cons, depthAfter_flat (by decide), depthBehind_append, ihInner,
      depthBehind_cons, depthAfter_flat (by decide), ih]

/-- A closing bracket does not go deeper. -/
theorem depthAfter_closes {closes : Char} (closing : Glyph.bracketOf closes = .closes)
    (depth : Nat) : depthAfter depth closes ≤ depth := by
  unfold depthAfter
  -- A bracket that opens is none that closes, and anything else takes one off or nothing.
  split_ifs with opens ends
  · rcases opens with rfl | rfl
    · exact absurd closing (by decide)
    · exact absurd closing (by decide)
  · exact Nat.sub_le depth 1
  · exact Nat.le_refl depth

/-- What begins inside a pair of brackets is left by the closing one. -/
theorem depthBehind_leaves {angled commas : Bool} {inner rest : List Glyph} {glyph : Glyph}
    (leaves : ∀ depth, depthAfter depth glyph.shown ≤ depth)
    (later : Glyph.Balanced angled commas rest) {depth : Nat}
    (inside : depthBehind depth inner ≤ depth) :
    depthBehind depth (inner ++ glyph :: rest) ≤ depth := by
  -- Behind the inner part is at most the depth in front, the closing one leaves it, and the rest
  -- goes nowhere.
  rw [depthBehind_append, depthBehind_cons, depthBehind_balanced later]
  exact Nat.le_trans (leaves _) inside

/-- The end of balanced code opens nothing that it does not close. -/
theorem depthBehind_suffix {angled commas : Bool} {code part : List Glyph}
    (balanced : Glyph.Balanced angled commas code) (ends : part <:+ code) (depth : Nat) :
    depthBehind depth part ≤ depth := by
  -- An end that begins inside brackets is left by the closing one, all others are balanced.
  induction balanced generalizing part depth with
  | nil => simp [List.suffix_nil.mp ends]
  | level flat noAngle noComma later ih =>
    rcases List.suffix_cons_iff.mp ends with rfl | ends
    · exact Nat.le_of_eq (depthBehind_balanced (.level flat noAngle noComma later) depth)
    · exact ih ends depth
  | arrow later ih =>
    rcases List.suffix_cons_iff.mp ends with rfl | ends
    · exact Nat.le_of_eq (depthBehind_balanced (.arrow later) depth)
    rcases List.suffix_cons_iff.mp ends with rfl | ends
    · rw [depthBehind_cons, depthAfter_flat (by decide), depthBehind_balanced later]
    · exact ih ends depth
  | @group commas opens closes inner rest pair inside later ihInner ih =>
    rcases List.suffix_cons_iff.mp ends with rfl | ends
    · exact Nat.le_of_eq (depthBehind_balanced (.group pair inside later) depth)
    rcases suffix_append_cons ends with ends | ⟨inner, isEnd, rfl⟩
    · exact ih ends depth
    · exact depthBehind_leaves (depthAfter_closes (Glyph.bracketOf_pair pair).2) later
        (ihInner isEnd depth)
  | @angles commas inner rest isAngled inside noArrow later ihInner ih =>
    rcases List.suffix_cons_iff.mp ends with rfl | ends
    · exact Nat.le_of_eq (depthBehind_balanced (.angles isAngled inside noArrow later) depth)
    rcases suffix_append_cons ends with ends | ⟨inner, isEnd, rfl⟩
    · exact ih ends depth
    · exact depthBehind_leaves (fun depth => Nat.le_of_eq (depthAfter_flat (by decide) depth)) later
        (ihInner isEnd depth)

end Segment

/-! Balanced code is told by its closing brackets. -/

namespace Glyph

/-- The bracket that closes what a bracket opens. -/
def closing (c : Char) : Char :=
  if c = '(' then ')' else if c = '[' then ']' else '}'

/-- Whether code closes its own brackets and then those that are open, innermost first. -/
def closesAll (opened : List Char) : List Glyph → Bool
  | [] => opened.isEmpty
  | glyph :: rest =>
    match bracketOf glyph.shown, opened with
    | .level, _ => closesAll opened rest
    | .opens, _ => closesAll (closing glyph.shown :: opened) rest
    | .closes, [] => false
    | .closes, c :: outer => glyph.shown == c && closesAll outer rest

/-- A glyph that shows a bracket is that bracket, in plain code. -/
theorem eq_plain {glyph : Glyph} (bracket : bracketOf glyph.shown ≠ .level) :
    glyph = plain glyph.shown := by
  obtain ⟨c, hidden⟩ := glyph
  -- A hidden glyph is seen as a space, which is no bracket.
  cases hidden with
  | false => rfl
  | true => exact absurd rfl bracket

/-- Code that closes all its brackets is balanced, up to the innermost one that was open. -/
theorem balanced_of_closesAll {opened : List Char} {code : List Glyph}
    (closes : closesAll opened code = true) :
    (opened = [] → Balanced false true code) ∧
      ∀ c outer, opened = c :: outer → ∃ inner rest, code = inner ++ plain c :: rest ∧
        Balanced false true inner ∧ closesAll outer rest = true ∧ rest.length < code.length := by
  match code with
  | [] =>
    have none : opened = [] := by simpa [closesAll] using closes
    exact ⟨fun _ => .nil, by simp [none]⟩
  | glyph :: rest =>
    rw [closesAll.eq_def] at closes
    cases nature : bracketOf glyph.shown with
    | level =>
      obtain ⟨whole, enclosed⟩ := balanced_of_closesAll (by simpa [nature] using closes)
      refine ⟨fun none => .level nature (by simp) (fun _ => rfl) (whole none), ?_⟩
      intro c outer opens
      obtain ⟨inner, more, rfl, balanced, closes, shorter⟩ := enclosed c outer opens
      exact ⟨glyph :: inner, more, rfl, .level nature (by simp) (fun _ => rfl) balanced, closes,
        Nat.lt_succ_of_lt shorter⟩
    | opens =>
      have isOpening : glyph = plain glyph.shown := eq_plain (by simp [nature])
      have pair : (glyph.shown, closing glyph.shown) ∈ [('(', ')'), ('[', ']'), ('{', '}')] := by
        unfold bracketOf at nature
        split_ifs at nature with isOne
        rcases isOne with is | is | is <;> rw [is] <;> decide
      -- The bracket is closed first, and what follows closes those around it.
      obtain ⟨inner, more, split, balanced, closes, shorter⟩ :=
        (balanced_of_closesAll (by simpa [nature] using closes)).2 _ _ rfl
      obtain ⟨whole, enclosed⟩ := balanced_of_closesAll closes
      rw [split, isOpening]
      refine ⟨fun none => .group pair balanced (whole none), ?_⟩
      intro c outer opens
      obtain ⟨inside, further, rfl, balancedToo, closes, shorterToo⟩ := enclosed c outer opens
      refine ⟨plain glyph.shown :: (inner ++ plain (closing glyph.shown) :: inside), further,
        by simp [plain, shown], .group pair balanced balancedToo, closes, ?_⟩
      simp only [List.length_cons, List.length_append]
      omega
    | closes =>
      have isClosing : glyph = plain glyph.shown := eq_plain (by simp [nature])
      cases opened with
      | nil => simp [nature] at closes
      | cons c outer =>
        obtain ⟨same, closes⟩ : glyph.shown = c ∧ closesAll outer rest = true := by
          simpa [nature] using closes
        refine ⟨by simp, ?_⟩
        intro other more opens
        obtain ⟨rfl, rfl⟩ := List.cons.inj opens
        exact ⟨[], rest, by rw [isClosing, same]; rfl, .nil, closes, by simp⟩
termination_by code.length

end Glyph

end IndexAudit
