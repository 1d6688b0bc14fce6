import IndexAudit.Proofs.Offset.Part
import IndexAudit.Sql.Token
import Mathlib.Data.List.Chain

/-!
Lists divided at separators, with the brackets in them.

One scan looks for the bracket that closes another one, and gives up where more is closed than has
been opened. The other one divides a list, and there a bracket that closes nothing counts for
nothing. Between a bracket and the one that closes it something is open for both of them. So a pair
of brackets always belongs to one part, however unbalanced the list is around it.
-/

namespace IndexAudit

/-- What an element does to the brackets by the part that it plays. -/
def Cut.nest : Cut → Nest
  | .bracket nest => nest
  | .angle _ => .level
  | .separator => .level

/-- Inside of a bracket the search ends where the last one is closed, and goes on before. -/
theorem Nest.closeIndex_succ {α : Type} (nest : α → Nest) (depth : Nat) (x : α) (rest : List α) :
    closeIndex nest (depth + 1) (x :: rest) =
      if (nest x).after (depth + 1) = 0 then some 0
      else (closeIndex nest ((nest x).after (depth + 1)) rest).map (· + 1) := by
  -- Only a bracket that closes can end the search, and only from depth one.
  cases bracket : nest x with
  | opens => simp [closeIndex, bracket, after]
  | level => simp [closeIndex, bracket, after]
  | closes => cases depth <;> simp [closeIndex, bracket, after]

namespace Cut

variable {α : Type} {nest : α → Nest} {cut : Option α → α → Cut}

/-- The part of a divided list that one more element in front belongs to, or stands in front of. -/
theorem split_cons_cases (depth angles : Nat) (previous : Option α) (x : α) (rest : List α) :
    ∃ inner angled, split cut depth angles previous (x :: rest) =
        extendFirst x (split cut inner angled (some x) rest) ∨
      split cut depth angles previous (x :: rest) = [] :: split cut inner angled (some x) rest := by
  rw [split]
  cases cut previous x with
  | bracket kind => exact ⟨_, _, .inl rfl⟩
  | angle kind => exact ⟨_, _, .inl rfl⟩
  -- A separator divides only where nothing is open.
  | separator =>
    by_cases outside : depth = 0 ∧ angles = 0
    · exact ⟨depth, angles, .inr (if_pos outside)⟩
    · exact ⟨depth, angles, .inl (if_neg outside)⟩

/-- Each part of a list is found one place on, and maybe wider, behind one more element. -/
theorem exists_wider (start depth angles : Nat) (previous : Option α) (x : α) (rest : List α) :
    ∃ inner angled, ∀ span ∈ spansFrom (start + 1)
        ((split cut inner angled (some x) rest).map List.length),
      ∃ wider ∈ spansFrom start ((split cut depth angles previous (x :: rest)).map List.length),
        wider.1 ≤ span.1 ∧ wider.2 = span.2 := by
  obtain ⟨inner, angled, cases⟩ := @split_cons_cases _ cut depth angles previous x rest
  refine ⟨inner, angled, fun span member => ?_⟩
  -- The element goes to the first part, or ends an empty part in front of it.
  rcases cases with first | apart
  · rw [first]
    obtain ⟨part, parts, form⟩ :=
      List.exists_cons_of_ne_nil (split_ne_nil cut inner angled (some x) rest)
    rw [form] at member ⊢
    simp only [extendFirst, List.map_cons, List.length_cons, spansFrom, List.mem_cons] at member ⊢
    rcases member with rfl | later
    · exact ⟨_, .inl rfl, Nat.le_succ start, by simp only; omega⟩
    · refine ⟨span, .inr ?_, Nat.le_refl _, rfl⟩
      rwa [show start + (part.length + 1) + 1 = start + 1 + part.length + 1 by omega]
  · rw [apart]
    refine ⟨span, ?_, Nat.le_refl _, rfl⟩
    simpa [spansFrom] using Or.inr member

section Agreement

variable (agrees : ∀ previous x, (cut previous x).nest = nest x)
include agrees

/-- What closes an open bracket belongs to the part that begins inside of it. -/
theorem exists_part_of_closeIndex {inside behind : List α} {depth close : Nat}
    (closed : Nest.closeIndex nest (depth + 1) (inside ++ behind) = some close)
    (within : close < inside.length) (outer angles : Nat) (previous : Option α) :
    ∃ part parts, split cut (outer + (depth + 1)) angles previous inside = part :: parts ∧
      close < part.length := by
  -- As long as something is open, each element goes to the part behind it.
  induction inside generalizing depth close angles previous with
  | nil => exact absurd within (Nat.not_lt_zero close)
  | cons x rest ih =>
    have later {inner angled : Nat}
        (found : (Nest.closeIndex nest (inner + 1) (rest ++ behind)).map (· + 1) = some close) :
        ∃ part parts, extendFirst x (split cut (outer + (inner + 1)) angled (some x) rest) =
          part :: parts ∧ close < part.length := by
      obtain ⟨less, inner, rfl⟩ := Option.map_eq_some_iff.mp found
      obtain ⟨part, parts, first, holds⟩ :=
        ih inner (Nat.lt_of_succ_lt_succ within) angled (some x)
      exact ⟨x :: part, parts, by rw [first]; rfl, Nat.succ_lt_succ holds⟩
    have same := agrees previous x
    rw [List.cons_append, Nest.closeIndex_succ] at closed
    rw [split]
    cases kind : cut previous x with
    | bracket bracket =>
      rw [kind, Cut.nest] at same
      rw [← same] at closed
      by_cases ends : bracket.after (depth + 1) = 0
      · rw [if_pos ends] at closed
        obtain rfl : 0 = close := Option.some.inj closed
        obtain ⟨part, parts, form⟩ := List.exists_cons_of_ne_nil
          (split_ne_nil cut (bracket.after (outer + (depth + 1))) angles (some x) rest)
        exact ⟨x :: part, parts, congrArg (extendFirst x) form, Nat.succ_pos _⟩
      -- While the inner count is above zero, the outer one moves along with it.
      · obtain ⟨inner, deeper⟩ := Nat.exists_eq_succ_of_ne_zero ends
        have outside : bracket.after (outer + (depth + 1)) = outer + (inner + 1) := by
          cases bracket <;> simp only [Nest.after] at deeper ⊢ <;> omega
        rw [if_neg ends, deeper] at closed
        simp only [outside]
        exact later closed
    | angle angle =>
      rw [kind, Cut.nest] at same
      rw [← same] at closed
      exact later closed
    | separator =>
      rw [kind, Cut.nest] at same
      rw [← same] at closed
      -- A separator divides nothing here, since the bracket is open.
      simp only [show ¬ (outer + (depth + 1) = 0 ∧ angles = 0) by omega, if_false]
      exact later closed

/-- A bracket and the one that closes it belong to the same part. -/
theorem exists_span_of_closeIndex {inside behind : List α} {place close : Nat} {x : α}
    (stands : inside[place]? = some x) (opens : nest x = .opens)
    (closed : Nest.closeIndex nest 0 ((inside ++ behind).drop place) = some close)
    (within : place + close < inside.length) (start depth angles : Nat) (previous : Option α) :
    ∃ span ∈ spansFrom start ((split cut depth angles previous inside).map List.length),
      span.1 ≤ start + place ∧ start + place + close < span.2 := by
  -- The induction goes up to the bracket, and from there on the part is known to go on.
  induction inside generalizing place start depth angles previous with
  | nil => cases stands
  | cons first rest ih =>
    cases place with
    | zero =>
      obtain rfl : first = x := by simpa using stands
      have bracket : cut previous first = .bracket .opens := by
        have same := (agrees previous first).trans opens
        cases kind : cut previous first <;> rw [kind] at same <;> cases same
        rfl
      rw [List.drop_zero, List.cons_append, Nest.closeIndex.eq_def] at closed
      simp only [opens] at closed
      obtain ⟨less, found, rfl⟩ := Option.map_eq_some_iff.mp closed
      have inner : less < rest.length := by
        rw [List.length_cons] at within
        omega
      -- What closes it stands in the first part of what is left, and the bracket in front of that.
      obtain ⟨part, parts, form, holds⟩ :=
        exists_part_of_closeIndex agrees found inner depth angles (some first)
      refine ⟨(start, start + (part.length + 1)), ?_, Nat.le_refl _, ?_⟩
      · rw [split, bracket]
        simp only [Nest.after]
        rw [form]
        exact List.mem_cons_self
      · simp only
        omega
    | succ place =>
      obtain ⟨inner, angled, wider⟩ := @exists_wider _ cut start depth angles previous first rest
      have shorter : place + close < rest.length := by
        rw [List.length_cons] at within
        omega
      obtain ⟨span, member, begins, ends⟩ :=
        ih (by simpa using stands) closed shorter (start + 1) inner angled (some first)
      obtain ⟨found, listed, before, same⟩ := wider span member
      exact ⟨found, listed, by omega, by omega⟩

end Agreement

/-- A separator inside of a part stands behind something that is opened there. -/
def IsEnclosed (separates opens : α → Prop) (part : List α) : Prop :=
  ∀ front x behind, part = front ++ x :: behind → separates x → ∃ y ∈ front, opens y

/-- Places that divide a stretch of a list at separators, and keep pairs of brackets together. -/
structure IsDivision (nest : α → Nest) (separates opens : α → Prop) (list : List α)
    (start stop : Nat) (spans : List (Nat × Nat)) : Prop where
  begins : spans.head?.map (·.1) = some start
  ends : spans.getLast?.map (·.2) = some stop
  ordered : ∀ span ∈ spans, span.1 ≤ span.2
  /-- Each part is followed by one separator, and that by the next part. -/
  separated : spans.IsChain fun span next =>
    next.1 = span.2 + 1 ∧ ∃ x ∈ list[span.2]?, separates x
  /-- The parts, with the separators between them, are the stretch. -/
  rejoined : ∃ parts whole, spans.mapM (fun span => between? span.1 span.2 list) = some parts ∧
    between? start stop list = some whole ∧ IsDivided separates parts whole ∧
    ∀ part ∈ parts, IsEnclosed separates opens part
  /-- A bracket in the stretch belongs to the same part as the one that closes it. -/
  unbroken : ∀ place x close, start ≤ place → list[place]? = some x → nest x = .opens →
    Nest.closeIndex nest 0 (list.drop place) = some close → place + close < stop →
    ∃ span ∈ spans, span.1 ≤ place ∧ place + close < span.2

section Places

variable {separates : α → Prop} {parts : List (List α)} {inside : List α}

/-- Parts with separators between them begin where the first one does. -/
theorem head?_spansFrom (divided : IsDivided separates parts inside) (start : Nat) :
    (spansFrom start (parts.map List.length)).head?.map (·.1) = some start := by
  -- Whether there is one part or more, the first one begins at the start.
  cases divided <;> rfl

/-- Parts with separators between them end where what they are parts of does. -/
theorem getLast?_spansFrom (divided : IsDivided separates parts inside) (start : Nat) :
    (spansFrom start (parts.map List.length)).getLast?.map (·.2) =
      some (start + inside.length) := by
  -- By the parts, with a new start behind each separator.
  induction divided generalizing start with
  | last => rfl
  | @next part rest parts x _ later ih =>
    have behind := ih (start + part.length + 1)
    have last : ((spansFrom start ((part :: parts).map List.length)).getLast?) =
        (spansFrom (start + part.length + 1) (parts.map List.length)).getLast? := by
      cases later <;> rfl
    rw [last, behind, List.length_append, List.length_cons]
    congr 1
    omega

/-- A part does not end in front of where it begins. -/
theorem le_of_mem_spansFrom {start : Nat} {sizes : List Nat} :
    ∀ span ∈ spansFrom start sizes, span.1 ≤ span.2 := by
  -- The first part begins at the start, and each later one behind a separator.
  induction sizes generalizing start with
  | nil => simp [spansFrom]
  | cons size sizes ih => exact List.forall_mem_cons.mpr ⟨Nat.le_add_right start size, ih⟩

/-- The places of parts are separated in the list that the parts come from. -/
theorem isChain_spansFrom (divided : IsDivided separates parts inside) (front behind : List α) :
    (spansFrom front.length (parts.map List.length)).IsChain fun span next =>
      next.1 = span.2 + 1 ∧ ∃ x ∈ (front ++ inside ++ behind)[span.2]?, separates x := by
  induction divided generalizing front with
  | last => exact List.isChain_singleton _
  -- A part and its separator move to the front that the other parts are counted from.
  | @next part rest parts x between later ih =>
    have chain := ih (front ++ part ++ [x])
    have size : (front ++ part ++ [x]).length = front.length + part.length + 1 := by
      simp [Nat.add_assoc]
    have whole : front ++ part ++ [x] ++ rest = front ++ (part ++ x :: rest) := by simp
    rw [size, whole] at chain
    have first := head?_spansFrom later (front.length + part.length + 1)
    rw [List.map_cons, spansFrom, List.isChain_cons]
    refine ⟨fun next isNext => ⟨?_, x, ?_, between⟩, chain⟩
    · rw [Option.mem_def.mp isNext] at first
      exact Option.some.inj first
    · simp

/-- The parts of a stretch stand at their places. -/
theorem mapM_between (divided : IsDivided separates parts inside) (front behind : List α) :
    (spansFrom front.length (parts.map List.length)).mapM
      (fun span => between? span.1 span.2 (front ++ inside ++ behind)) = some parts := by
  induction divided generalizing front with
  | @last part =>
    simp only [List.map_cons, List.map_nil, spansFrom, List.mapM_cons, List.mapM_nil,
      between?_length]
    rfl
  -- The next part begins one behind the end of this one, past the separator.
  | @next part rest parts x _ _ ih =>
    have later := ih (front ++ part ++ [x])
    have size : (front ++ part ++ [x]).length = front.length + part.length + 1 := by
      simp [Nat.add_assoc]
    have whole : front ++ (part ++ x :: rest) ++ behind =
        front ++ part ++ (x :: (rest ++ behind)) := by simp
    have same : front ++ part ++ [x] ++ rest ++ behind =
        front ++ part ++ (x :: (rest ++ behind)) := by simp
    rw [size, same] at later
    rw [whole, List.map_cons, spansFrom, List.mapM_cons, between?_length, later]
    rfl

end Places

/-- What a list is divided by: its brackets, its separators, and what may be open around these. -/
structure Reads (cut : Option α → α → Cut) (nest : α → Nest) (separates opens : α → Prop) :
    Prop where
  agrees : ∀ previous x, (cut previous x).nest = nest x
  cuts : ∀ previous x, cut previous x = .separator ↔ separates x
  opening : ∀ previous x,
    cut previous x = .bracket .opens ∨ cut previous x = .angle .opens → opens x

/-- A part stays enclosed behind one more element, which is no separator and may open the part. -/
theorem IsEnclosed.cons {separates opens : α → Prop} {x : α} {part : List α} (apart : ¬ separates x)
    (later : ¬ opens x → IsEnclosed separates opens part) :
    IsEnclosed separates opens (x :: part) := by
  intro front y behind whole separator
  cases front with
  | nil =>
    obtain ⟨rfl, -⟩ := List.cons.inj whole
    exact absurd separator apart
  | cons z front =>
    obtain ⟨rfl, shorter⟩ := List.cons.inj whole
    -- The first element opens, or an opener is found further on.
    by_cases opened : opens x
    · exact ⟨x, List.mem_cons_self, opened⟩
    · obtain ⟨opener, stands, found⟩ := later opened front y behind shorter separator
      exact ⟨opener, List.mem_cons_of_mem _ stands, found⟩

/-- A part ends at the first separator with nothing open in front of it. -/
theorem Reads.enclosed {separates opens : α → Prop} (reads : Reads cut nest separates opens)
    (depth angles : Nat) (previous : Option α) (list : List α) :
    ∃ part parts, split cut depth angles previous list = part :: parts ∧
      (depth = 0 → angles = 0 → IsEnclosed separates opens part) ∧
      ∀ part ∈ parts, IsEnclosed separates opens part := by
  -- What is open in front stays open in the first part only, so that the others stand alone.
  induction list generalizing depth angles previous with
  | nil => exact ⟨[], [], rfl, fun _ _ front _ _ whole => by simp at whole, by simp⟩
  | cons x rest ih =>
    have further {inner angled : Nat} (apart : depth = 0 → angles = 0 → ¬ separates x)
        (deeper : depth = 0 → angles = 0 → ¬ opens x → inner = 0 ∧ angled = 0) :
        ∃ part parts, extendFirst x (split cut inner angled (some x) rest) = part :: parts ∧
          (depth = 0 → angles = 0 → IsEnclosed separates opens part) ∧
          ∀ part ∈ parts, IsEnclosed separates opens part := by
      obtain ⟨part, parts, form, first, later⟩ := ih inner angled (some x)
      refine ⟨x :: part, parts, congrArg (extendFirst x) form, fun level flat => ?_, later⟩
      refine .cons (apart level flat) fun shut => ?_
      obtain ⟨none, closed⟩ := deeper level flat shut
      exact first none closed
    have opening := reads.opening previous x
    have cuts := reads.cuts previous x
    rw [split]
    cases kind : cut previous x with
    | bracket bracket =>
      rw [kind] at opening cuts
      refine further (fun _ _ separator => by cases cuts.mpr separator) ?_
      rintro rfl rfl shut
      cases bracket with
      | opens => exact absurd (opening (.inl rfl)) shut
      | closes => exact ⟨rfl, rfl⟩
      | level => exact ⟨rfl, rfl⟩
    | angle angle =>
      rw [kind] at opening cuts
      refine further (fun _ _ separator => by cases cuts.mpr separator) ?_
      rintro rfl rfl shut
      cases angle with
      | opens => exact absurd (opening (.inr rfl)) shut
      | closes => exact ⟨rfl, rfl⟩
      | level => exact ⟨rfl, rfl⟩
    | separator =>
      simp only
      split
      · obtain ⟨part, parts, form, first, later⟩ := ih depth angles (some x)
        next outside =>
          obtain ⟨rfl, rfl⟩ := outside
          refine ⟨[], part :: parts, congrArg ([] :: ·) form, ?_, ?_⟩
          · exact fun _ _ front _ _ whole => by simp at whole
          · exact List.forall_mem_cons.mpr ⟨first rfl rfl, later⟩
      -- With something open the separator is an element like others.
      · next inside =>
          exact further (fun level flat => absurd ⟨level, flat⟩ inside)
            (fun level flat => absurd ⟨level, flat⟩ inside)

/-- What is divided at separators is divided into places that keep pairs of brackets together. -/
theorem Reads.isDivision {separates opens : α → Prop} (reads : Reads cut nest separates opens)
    (front inside behind : List α) (previous : Option α) :
    IsDivision nest separates opens (front ++ inside ++ behind) front.length
      (front.length + inside.length)
      (spansFrom front.length ((split cut 0 0 previous inside).map List.length)) := by
  have divided := isDivided_split (fun previous x => (reads.cuts previous x).mp) 0 0 previous inside
  obtain ⟨part, parts, form, first, later⟩ := reads.enclosed 0 0 previous inside
  have enclosed : ∀ part ∈ split cut 0 0 previous inside, IsEnclosed separates opens part := by
    rw [form]
    exact List.forall_mem_cons.mpr ⟨first rfl rfl, later⟩
  refine ⟨head?_spansFrom divided _, getLast?_spansFrom divided _, le_of_mem_spansFrom,
    isChain_spansFrom divided front behind,
    ⟨_, inside, mapM_between divided front behind, between?_length front inside behind, divided,
      enclosed⟩, ?_⟩
  -- Places are counted from the front of the whole list, and the search from the stretch.
  intro place x close above stands opens closed below
  obtain ⟨index, rfl⟩ := Nat.exists_eq_add_of_le above
  have within : index + close < inside.length := by omega
  rw [List.append_assoc, List.getElem?_append_right above, Nat.add_sub_cancel_left,
    List.getElem?_append_left (by omega)] at stands
  rw [List.append_assoc, List.drop_append, List.drop_of_length_le above, List.nil_append,
    Nat.add_sub_cancel_left] at closed
  exact exists_span_of_closeIndex reads.agrees stands opens closed within front.length 0 0 previous

/-- A stretch between two places of a list is divided into places of that list. -/
theorem Reads.isDivision_between {separates opens : α → Prop}
    (reads : Reads cut nest separates opens) {list : List α} {start stop : Nat}
    (ordered : start ≤ stop) (bounded : stop ≤ list.length) (previous : Option α) :
    IsDivision nest separates opens list start stop
      (spansFrom start
        ((split cut 0 0 previous ((list.drop start).take (stop - start))).map List.length)) := by
  have front : (list.take start).length = start := List.length_take_of_le (by omega)
  have inside : ((list.drop start).take (stop - start)).length = stop - start :=
    List.length_take_of_le (by rw [List.length_drop]; omega)
  have whole : list.take start ++ (list.drop start).take (stop - start) ++
      (list.drop start).drop (stop - start) = list := by
    rw [List.append_assoc, List.take_append_drop, List.take_append_drop]
  -- With what is around it, the stretch is a list of three parts.
  have division := reads.isDivision (list.take start) ((list.drop start).take (stop - start))
    ((list.drop start).drop (stop - start)) previous
  rwa [whole, front, inside, Nat.add_sub_cancel' ordered] at division

end Cut

/-- A character opens a bracket, or an angle where these nest. -/
def Glyph.Opens (angled : Bool) (c : Char) : Prop :=
  bracketOf c = .opens ∨ angled = true ∧ c = '<'

section Separator

variable {separator : Char} {angled : Bool}

/-- Code is divided at each separator that is no bracket, and no angle where these nest. -/
theorem Glyph.reads_cutAt (level : bracketOf separator = .level)
    (flat : angled = true → separator ≠ '<' ∧ separator ≠ '>') :
    Cut.Reads (cutAt separator angled) (fun glyph => bracketOf glyph.shown)
      (fun glyph => glyph.shown = separator) fun glyph => Opens angled glyph.shown := by
  -- Three questions: what it does to the nesting, whether it separates, and whether it opens.
  refine ⟨fun previous glyph => ?_, fun previous glyph => ⟨shown_of_cutAt, ?_⟩,
    fun previous glyph => ?_⟩
  · rw [cutAt]
    cases bracket : bracketOf glyph.shown with
    | opens => rfl
    | closes => rfl
    | level =>
      simp only
      split
      · rfl
      · split
        · rfl
        · split <;> rfl
  · rintro rfl
    have noOpen : ¬ (angled = true ∧ glyph.shown = '<') := by
      rintro ⟨nests, angle⟩
      exact (flat nests).1 angle
    -- An angle that ends an arrow closes nothing, but the separator is no angle at all.
    have noClose : ¬ (angled = true ∧ glyph.shown = '>' ∧ previous.any (·.shown != '-') = true) := by
      rintro ⟨nests, angle, _⟩
      exact (flat nests).2 angle
    simp only [cutAt, level, if_neg noOpen, if_neg noClose, if_pos]
  · rw [cutAt]
    cases bracket : bracketOf glyph.shown with
    | opens => exact fun _ => .inl bracket
    | closes => simp
    | level =>
      by_cases opening : angled = true ∧ glyph.shown = '<'
      · exact fun _ => .inr opening
      · simp only [if_neg opening]
        split
        · simp
        · split <;> simp

/-- Bytes are divided as the characters that they are seen as. -/
theorem reads_byteCut (level : Glyph.bracketOf separator = .level)
    (flat : angled = true → separator ≠ '<' ∧ separator ≠ '>') :
    Cut.Reads (byteCut separator angled) Glyph.bracketOf (· = separator) (Glyph.Opens angled) :=
  -- A byte stands for a piece of plain code, for which the characters say the same.
  have reads := Glyph.reads_cutAt level flat
  ⟨fun _ byte => reads.agrees _ (Glyph.plain byte), fun _ byte => reads.cuts _ (Glyph.plain byte),
    fun _ byte => reads.opening _ (Glyph.plain byte)⟩

end Separator

/-- Tokens are divided at commas, and round brackets nest. -/
theorem SqlToken.reads_cutAtComma :
    Cut.Reads cutAtComma nest (· = .punctuation ',') (nest · = .opens) := by
  -- Agreement, cuts and openings are each read off the step.
  refine ⟨fun _ token => ?_, fun _ token => ?_, fun _ token => ?_⟩ <;> rw [cutAtComma]
  · split
    · next comma => rw [comma]; rfl
    · rfl
  · split <;> simp_all
  · split <;> simp

/--
Code, its bytes and lists of tokens are divided at separators, and no pair of brackets is divided.

In bytes the search for the bracket that closes another one goes to the end of them all.
-/
theorem split_keepsPairs (separator : Char) (angled : Bool)
    (level : Glyph.bracketOf separator = .level)
    (flat : angled = true → separator ≠ '<' ∧ separator ≠ '>') :
    (∀ (code : List Glyph) (start stop : Nat), start ≤ stop → stop ≤ code.length →
      Cut.IsDivision (fun glyph : Glyph => Glyph.bracketOf glyph.shown) (·.shown = separator)
        (fun glyph => Glyph.Opens angled glyph.shown) code start stop
        (spansFrom start ((Glyph.splitTop separator angled
          ((code.drop start).take (stop - start))).map List.length))) ∧
    (∀ (bytes : List Char) (start stop : Nat), start ≤ stop → stop ≤ bytes.length →
      ∃ spans, spans? separator angled start stop bytes = some spans ∧
        Cut.IsDivision Glyph.bracketOf (· = separator) (Glyph.Opens angled) bytes start stop
          spans) ∧
    ∀ tokens : List SqlToken,
      Cut.IsDivision SqlToken.nest (· = .punctuation ',') (SqlToken.nest · = .opens) tokens 0
        tokens.length (spansFrom 0 ((SqlToken.splitCommas tokens).map List.length)) := by
  refine ⟨fun code start stop ordered bounded => ?_, fun bytes start stop ordered bounded => ?_,
    fun tokens => ?_⟩
  -- Three scans with rules of their own, each of which reads its elements as a cut does.
  · exact (Glyph.reads_cutAt level flat).isDivision_between ordered bounded none
  · exact ⟨_, if_pos ⟨ordered, bounded⟩,
      (reads_byteCut level flat).isDivision_between ordered bounded _⟩
  · have division := SqlToken.reads_cutAtComma.isDivision [] tokens [] none
    simpa [SqlToken.splitCommas] using division

/-- A bracket that closes nothing, arguments in angles and a call are divided at two commas. -/
theorem split_keepsPairs_unbalanced :
    (Glyph.bracketOf ',' = .level ∧ ',' ≠ '<' ∧ ',' ≠ '>') ∧ 0 ≤ 20 ∧
      20 ≤ ")a, M<b, c>, f(d, e)".toList.length ∧
      Cut.IsDivision Glyph.bracketOf (· = ',') (Glyph.Opens true) ")a, M<b, c>, f(d, e)".toList 0 20
        [(0, 2), (3, 11), (12, 20)] := by
  have bounded : 20 ≤ ")a, M<b, c>, f(d, e)".toList.length := by decide +kernel
  obtain ⟨spans, same, division⟩ := (split_keepsPairs ',' true (by decide) fun _ => by decide).2.1
    ")a, M<b, c>, f(d, e)".toList 0 20 (by decide) bounded
  -- The offsets are computed, and the division is that of the offsets.
  have places : spans? ',' true 0 20 ")a, M<b, c>, f(d, e)".toList =
      some [(0, 2), (3, 11), (12, 20)] := by decide +kernel
  obtain rfl : spans = [(0, 2), (3, 11), (12, 20)] := Option.some.inj (same.symm.trans places)
  exact ⟨by decide, by decide, bounded, division⟩

end IndexAudit
