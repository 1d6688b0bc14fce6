import IndexAudit.Proofs.Entity.ClassEnd
import IndexAudit.Proofs.Offset.Segment
import IndexAudit.Proofs.Offset.Search
import Mathlib.Data.List.DropRight

/-!
The heading and the body of a class found at their byte offsets.

The search for the parameters of a constructor jumps from one part of the heading to the next, and each
jump leads on, so that the search ends.
-/

namespace IndexAudit

open AnnotationUse (skipSpacing)

namespace Entity

/-- Where the search for the parameters of a constructor is led by what it meets. -/
inductive HeadingJump where
  /-- To the offsets around the parameters, or to nothing. -/
  | stops (found : Option (Nat × Nat))
  /-- To the offset behind type parameters, annotations or a word. -/
  | passes (next : Nat)

/--
Where the search for the parameters of a constructor is led by what stands at an offset.

It fails if the code is cut inside a character.
-/
def jumpFrom? (code : List Glyph) (start : Nat) : Option HeadingJump :=
  let bytes := maskedBytes code
  match bytes[start]? with
  | none => some (.stops none)
  | some byte =>
    if byte = '(' then
      some (.stops ((Nest.closeIndex Glyph.bracketOf 0 (bytes.drop start)).map fun close =>
        (start + 1, start + close)))
    else do
      let behind ← from? start code
      if byte = '<' then
        match textIndex? ['>'] (maskedBytes behind) with
        | none => some (.stops none)
        | some close => some (.passes (start + close + 1))
      else if byte = '@' then
        let (_, rest) ← AnnotationUse.leading? behind
        -- An at sign with no name behind it is no annotation, so nothing is passed over.
        some (if rest = 0 then .stops none else .passes (start + rest))
      else
        let stop := start + width (behind.takeWhile fun glyph => isIdentifierChar glyph.shown)
        let word ← slice? start stop code
        some (if constructorWords.contains (String.ofList (Glyph.shownText word)) then .passes stop
          else .stops none)

/--
The offsets around the parameters of a primary constructor, searched from an offset on.

It fails if the fuel does not suffice or if the code is cut inside a character.
-/
def parametersFrom? (code : List Glyph) : Nat → Nat → Option (Option (Nat × Nat))
  | 0, _ => none
  | fuel + 1, offset => do
    match ← jumpFrom? code (AnnotationUse.skipFrom (maskedBytes code) offset) with
    | .stops found => some found
    | .passes next => parametersFrom? code fuel next

/--
The offsets around the body of a class, searched from an offset on.

It fails if the code is cut inside a character.
-/
def classBodyFrom? (code : List Glyph) (offset : Nat) : Option (Option (Nat × Nat)) :=
  let bytes := maskedBytes code
  match bodyIndex? 0 ((bytes.drop offset).map Glyph.plain) with
  | none => some none
  | some size =>
    let start := offset + size
    (slice? offset start code).map fun heading =>
      if (Declaration.find ["class".toList] none heading).isSome then none
      else (Nest.closeIndex Glyph.bracketOf 0 (bytes.drop start)).map fun close =>
        (start + 1, start + close)

/-- What the search for the parameters of a constructor meets leads it on, or to what is to be found. -/
inductive Leads (front : List Glyph) : List Glyph → HeadingJump → Prop
  | missing {rest : List Glyph} (missing : constructorParameters? rest = none) :
      Leads front rest (.stops none)
  | found {opening closing : Glyph} {inside after : List Glyph} (openingOne : Sized.size opening = 1)
      (closingOne : Sized.size closing = 1)
      (found : constructorParameters? (opening :: (inside ++ closing :: after)) = some (inside, after)) :
      Leads front (opening :: (inside ++ closing :: after))
        (.stops (some (width front + 1, width front + (width inside + 1))))
  | passes {gone rest : List Glyph} (filled : gone ≠ [])
      (same : constructorParameters? (gone ++ rest) = constructorParameters? rest) :
      Leads front (gone ++ rest) (.passes (width front + width gone))

/-- A search has found the parameters of a constructor in the code behind a place, or there are none. -/
inductive FindsParameters (front : List Glyph) : List Glyph → Option (Nat × Nat) → Prop
  | missing {rest : List Glyph} (missing : constructorParameters? rest = none) :
      FindsParameters front rest none
  | found {before inside after : List Glyph} {closing : Glyph} (one : Sized.size closing = 1)
      (found : constructorParameters? (before ++ inside ++ closing :: after) = some (inside, after)) :
      FindsParameters front (before ++ inside ++ closing :: after)
        (some (width (front ++ before), width (front ++ before) + width inside))

/-- What a search finds behind a part of a heading it finds from that part on. -/
theorem FindsParameters.behind {front gone rest : List Glyph} {offsets : Option (Nat × Nat)}
    (finds : FindsParameters (front ++ gone) rest offsets)
    (same : constructorParameters? (gone ++ rest) = constructorParameters? rest) :
    FindsParameters front (gone ++ rest) offsets := by
  -- Either nothing is found from both places, or what is found lies in the rest.
  cases finds with
  | missing missing => exact .missing (same.trans missing)
  | @found before inside after closing one found =>
    have whole : gone ++ (before ++ inside ++ closing :: after) =
        gone ++ before ++ inside ++ closing :: after := by simp
    rw [whole] at same ⊢
    rw [List.append_assoc front]
    exact .found one (same.trans found)

/-- Nothing is left to skip behind spacing. -/
theorem skipSpacing_idem (code : List Glyph) : skipSpacing (skipSpacing code) = skipSpacing code :=
  List.dropWhile_idempotent _ _

/-- The parameters of a constructor are looked for behind all annotations at once. -/
theorem constructorParameters?_leading (code : List Glyph) :
    constructorParameters? (AnnotationUse.leading code).2 = constructorParameters? code := by
  -- By the length of the code, as an annotation takes any number of characters off the front.
  induction length : code.length using Nat.strong_induction_on generalizing code with
  | _ count ih =>
    rw [AnnotationUse.leading_eq]
    cases read : AnnotationUse.read? (skipSpacing code) with
    | none => exact constructorParameters?_congr (skipSpacing_idem code)
    | some found =>
      obtain ⟨note, after⟩ := found
      have shorter : after.length < count := by
        have within : (skipSpacing code).length ≤ code.length := dropWhile_length _ _
        have less := AnnotationUse.read?_length read
        omega
      have passes : headingStep code = .passes after := by
        cases start : skipSpacing code with
        | nil => simp [start, AnnotationUse.read?] at read
        | cons glyph rest =>
          have sign : glyph.shown = '@' := by
            by_contra other
            simp [start, AnnotationUse.read?, other] at read
          rw [start] at read
          simp [headingStep, start, sign, read]
      rw [constructorParameters?_step code, passes]
      exact ih after.length shorter after rfl

section Jump

variable (front : List Glyph) {glyph : Glyph} {inner : List Glyph}
variable (visible : skipSpacing (glyph :: inner) = glyph :: inner)
include visible

/-- A parenthesis leads to the parameters that it opens. -/
theorem jumpFrom?_bracket (bracket : glyph.shown = '(') :
    ∃ jump, jumpFrom? (front ++ glyph :: inner) (width front) = some jump ∧
      Leads front (glyph :: inner) jump := by
  have one : Sized.size glyph = 1 := size_of_shown (by decide) (by decide) bracket
  have opens : Glyph.bracketOf glyph.shown = .opens := by simp [Glyph.bracketOf, bracket]
  have word : firstWord (Glyph.shownText (glyph :: inner)) = [] := by
    rw [Glyph.shownText, List.map_cons, bracket]
    exact List.takeWhile_cons_of_neg (by decide)
  have step := constructorParameters?_step (glyph :: inner)
  simp only [headingStep, visible, bracket, word, parametersHere?, if_true,
    show ('(' = '<') = False by decide, show ('(' = '@') = False by decide, if_false] at step
  obtain ⟨byte, found, same⟩ := exists_firstByte front glyph inner
  rw [jumpFrom?, found, drop_maskedBytes]
  simp only [(same '(' (by decide) (by decide)).mpr bracket, if_true]
  -- The closing bracket is missing both from the code and from its bytes, or it is in both.
  rcases closeIndex_cases opens one inner with ⟨unclosed, bytes⟩ | ⟨inside, closing, after, encloses⟩
  · rw [unclosed] at step
    rw [bytes]
    exact ⟨_, rfl, .missing step⟩
  · have parts := encloses.code
    have kept : inner.take (inside.length + 1 - 1) = inside := by rw [parts, Nat.add_sub_cancel, List.take_left]
    have left : inner.drop (inside.length + 1) = after := by
      rw [parts]
      simp
    rw [encloses.index, Option.map_some, kept, left, parts] at step
    rw [encloses.offset, parts]
    exact ⟨_, rfl, .found one encloses.size step⟩

/-- Type parameters are passed over up to the first closing angle. -/
theorem jumpFrom?_angle (angle : glyph.shown = '<') :
    ∃ jump, jumpFrom? (front ++ glyph :: inner) (width front) = some jump ∧
      Leads front (glyph :: inner) jump := by
  have opens : (glyph.shown != '>') = true := by rw [angle]; decide
  have step := constructorParameters?_step (glyph :: inner)
  simp only [headingStep, visible, angle, if_true] at step
  obtain ⟨byte, found, same⟩ := exists_firstByte front glyph inner
  obtain rfl : byte = '<' := (same '<' (by decide) (by decide)).mpr angle
  rw [jumpFrom?, found, from?_width]
  simp only [show ('<' = '(') = False by decide, if_false, if_true, Option.bind_eq_bind,
    Option.bind_some]
  -- The first closing angle is looked for, however many were opened.
  rcases textIndex?_cases (c := '>') (by decide) (by decide) (glyph :: inner) with
    ⟨bytes, unclosed⟩ | ⟨closing, after, closes, left, bytes⟩
  · rw [List.dropWhile_cons, if_pos opens] at unclosed
    rw [unclosed] at step
    rw [bytes]
    exact ⟨_, rfl, .missing step⟩
  · have one : Sized.size closing = 1 := size_of_shown (by decide) (by decide) closes
    have parts : (glyph :: inner).takeWhile (·.shown != '>') ++ [closing] ++ after = glyph :: inner := by
      rw [List.append_assoc, List.singleton_append, ← left, List.takeWhile_append_dropWhile]
    rw [List.dropWhile_cons, if_pos opens] at left
    rw [left] at step
    rw [bytes]
    refine ⟨_, rfl, ?_⟩
    have leads : Leads front ((glyph :: inner).takeWhile (·.shown != '>') ++ [closing] ++ after) _ :=
      .passes (by simp) (by rw [parts, step])
    rw [parts, width_append, width_cons, one, width_nil, ← Nat.add_assoc] at leads
    exact leads

/-- Annotations are passed over all at once. -/
theorem jumpFrom?_sign (sign : glyph.shown = '@') :
    ∃ jump, jumpFrom? (front ++ glyph :: inner) (width front) = some jump ∧
      Leads front (glyph :: inner) jump := by
  have step := constructorParameters?_step (glyph :: inner)
  simp only [headingStep, visible, sign, if_true, show ('@' = '<') = False by decide, if_false] at step
  obtain ⟨byte, found, same⟩ := exists_firstByte front glyph inner
  obtain rfl : byte = '@' := (same '@' (by decide) (by decide)).mpr sign
  obtain ⟨taken, parts, leading⟩ := AnnotationUse.leading?_eq (glyph :: inner)
  rw [jumpFrom?, found, from?_width]
  simp only [show ('@' = '(') = False by decide, show ('@' = '<') = False by decide, if_false, if_true,
    leading, Option.bind_eq_bind, Option.bind_some]
  refine ⟨_, rfl, ?_⟩
  by_cases empty : width taken = 0
  · -- Where nothing is read, no annotation begins, and neither do parameters.
    rw [if_pos empty]
    have none : AnnotationUse.read? (glyph :: inner) = none := by
      cases read : AnnotationUse.read? (glyph :: inner) with
      | none => rfl
      | some found =>
        have whole := congrArg List.length parts
        rw [eq_nil_of_width empty, List.nil_append, AnnotationUse.leading_eq, visible, read] at whole
        have shorter := AnnotationUse.read?_length read
        have within := (AnnotationUse.leading_isSuffix found.2).length_le
        dsimp only at whole
        omega
    rw [none] at step
    exact .missing (step.trans (by simp [parametersHere?, sign]))
  · rw [if_neg empty]
    have filled : taken ≠ [] := by
      rintro rfl
      exact empty rfl
    have leads : Leads front (taken ++ (AnnotationUse.leading (glyph :: inner)).2) _ :=
      .passes filled (by rw [← parts, constructorParameters?_leading])
    rwa [← parts] at leads

/-- A word is passed over if it may stand in a heading. -/
theorem jumpFrom?_word (noBracket : glyph.shown ≠ '(') (noAngle : glyph.shown ≠ '<')
    (noSign : glyph.shown ≠ '@') :
    ∃ jump, jumpFrom? (front ++ glyph :: inner) (width front) = some jump ∧
      Leads front (glyph :: inner) jump := by
  have step := constructorParameters?_step (glyph :: inner)
  have missing : parametersHere? (glyph :: inner) = none := by simp [parametersHere?, noBracket]
  simp only [headingStep, visible, noAngle, noSign, if_false] at step
  obtain ⟨byte, found, same⟩ := exists_firstByte front glyph inner
  -- The word that the bytes are cut into is the one that the code begins with.
  obtain ⟨word, left, parts, taken⟩ : ∃ word left, glyph :: inner = word ++ left ∧
      ((glyph :: inner).takeWhile fun glyph => isIdentifierChar glyph.shown) = word :=
    ⟨_, _, List.takeWhile_append_dropWhile.symm, rfl⟩
  have cut : slice? (width front) (width front + width word) (front ++ glyph :: inner) = some word := by
    rw [parts, ← List.append_assoc]
    exact slice?_width _ _ _
  have text : Glyph.shownText word = firstWord (Glyph.shownText (glyph :: inner)) := by
    rw [← taken, firstWord, Glyph.shownText, Glyph.shownText, List.takeWhile_map]
    rfl
  rw [jumpFrom?, found, from?_width]
  simp only [same '(' (by decide) (by decide), same '<' (by decide) (by decide),
    same '@' (by decide) (by decide), if_neg noBracket, if_neg noAngle, if_neg noSign, taken, cut, text,
    Option.bind_eq_bind, Option.bind_some]
  refine ⟨_, rfl, ?_⟩
  cases named : firstWord (Glyph.shownText (glyph :: inner)) with
  | nil =>
    rw [named] at step
    exact .missing (step.trans missing)
  | cons c more =>
    rw [named] at step
    dsimp only at step
    by_cases known : constructorWords.contains (String.ofList (c :: more)) = true
    · rw [if_pos known] at step ⊢
      have size : word.length = more.length + 1 := by
        have length := congrArg List.length (text.trans named)
        rwa [Glyph.shownText, List.length_map] at length
      have rest : inner.drop more.length = left := by
        have dropped : (glyph :: inner).drop (more.length + 1) = left := by rw [parts, ← size, List.drop_left]
        exact dropped
      have filled : word ≠ [] := by
        rintro rfl
        cases size
      have leads : Leads front (word ++ left) _ :=
        .passes filled (by rw [← parts, step, rest])
      rwa [← parts] at leads
    · rw [if_neg known] at step ⊢
      exact .missing (step.trans missing)

end Jump

/-- The search for the parameters of a constructor is led on without fail behind any spacing. -/
theorem jumpFrom?_width (front rest : List Glyph) (visible : skipSpacing rest = rest) :
    ∃ jump, jumpFrom? (front ++ rest) (width front) = some jump ∧ Leads front rest jump := by
  -- What comes next, if anything does, decides in which way the search goes on.
  cases rest with
  | nil =>
    have ended : (maskedBytes front)[width front]? = none := by
      rw [List.getElem?_eq_none_iff, length_maskedBytes]
    rw [List.append_nil, jumpFrom?, ended]
    refine ⟨_, rfl, .missing ?_⟩
    rw [constructorParameters?_step]
    rfl
  | cons glyph inner =>
    by_cases bracket : glyph.shown = '('
    · exact jumpFrom?_bracket front visible bracket
    by_cases angle : glyph.shown = '<'
    · exact jumpFrom?_angle front visible angle
    by_cases sign : glyph.shown = '@'
    · exact jumpFrom?_sign front visible sign
    exact jumpFrom?_word front visible bracket angle sign

/-- The search for the parameters of a constructor ends, whatever it meets. -/
theorem parametersFrom?_width (front rest : List Glyph) (fuel : Nat) (enough : width rest < fuel) :
    ∃ offsets, parametersFrom? (front ++ rest) fuel (width front) = some offsets ∧
      FindsParameters front rest offsets := by
  induction fuel generalizing front rest with
  | zero => omega
  | succ fuel ih =>
    have gap := AnnotationUse.spacing_append rest
    have start := AnnotationUse.skipFrom_width front rest
    have size := congrArg width gap
    generalize (rest.takeWhile fun glyph => isSpacing glyph.shown) = spaces at gap start size
    rw [width_append] at size
    have place : front ++ rest = front ++ spaces ++ skipSpacing rest := by rw [List.append_assoc, gap]
    -- What the search finds behind the spacing it finds from in front of it.
    have spaced : ∀ {offsets}, FindsParameters (front ++ spaces) (skipSpacing rest) offsets →
        FindsParameters front rest offsets := by
      intro offsets finds
      have whole := finds.behind (constructorParameters?_congr (by rw [gap, skipSpacing_idem]))
      rwa [gap] at whole
    obtain ⟨jump, found, leads⟩ := jumpFrom?_width (front ++ spaces) (skipSpacing rest)
      (skipSpacing_idem rest)
    rw [parametersFrom?, start, place, found]
    generalize skipSpacing rest = behind at spaced leads size
    cases leads with
    | missing missing => exact ⟨_, rfl, spaced (.missing missing)⟩
    | @found opening closing inside after openingOne closingOne parameters =>
      have offset : width (front ++ spaces) + 1 = width (front ++ spaces ++ [opening]) := by
        rw [width_append _ [opening], width_cons, openingOne, width_nil]
      refine ⟨_, rfl, spaced ?_⟩
      rw [← Nat.add_assoc, Nat.add_right_comm, offset]
      have finds : FindsParameters (front ++ spaces) ([opening] ++ inside ++ closing :: after) _ :=
        .found closingOne parameters
      exact finds
    | @passes gone left filled same =>
      have positive := Nat.lt_of_lt_of_le (List.length_pos_iff.mpr filled) (length_le_width gone)
      rw [width_append] at size
      obtain ⟨offsets, found, finds⟩ := ih (front ++ spaces ++ gone) left (by omega)
      refine ⟨offsets, ?_, spaced (finds.behind same)⟩
      rw [← found]
      simp [Nat.add_assoc]

/-- A filler leaves the nesting as it is. -/
theorem depthAfter_filler {c : Char} (fills : IsFiller c) (depth : Nat) :
    Segment.depthAfter depth c = depth := by
  -- Only four brackets change the depth, and none of them is a filler.
  have apart : ∀ d ∈ ['(', '[', ')', ']'], c ≠ d := fun d listed =>
    fills.ne (by revert d; decide) (by revert d; decide)
  simp [Segment.depthAfter, apart]

/-- Bytes that fill open no body. -/
theorem bodyIndex?_fillers {fillers : List Char} (fills : ∀ byte ∈ fillers, IsFiller byte) (depth : Nat)
    (rest : List Glyph) :
    bodyIndex? depth (fillers.map Glyph.plain ++ rest) = (bodyIndex? depth rest).map (· + fillers.length) := by
  induction fillers with
  | nil => simp
  | cons byte fillers ih =>
    obtain ⟨here, later⟩ := List.forall_mem_cons.mp fills
    have shown : (Glyph.plain byte).shown = byte := rfl
    -- The first byte neither nests nor opens a body, so the search moves on by one.
    rw [List.map_cons, List.cons_append, bodyIndex?, shown, depthAfter_filler here,
      if_neg fun both => here.ne (by decide) (by decide) both.2, ih later]
    simp [Function.comp_def, Nat.add_assoc]

/-- The body of a class is found in the bytes of code at the offset at which it opens. -/
theorem bodyIndex?_bytes (depth : Nat) (code : List Glyph) :
    bodyIndex? depth ((maskedBytes code).map Glyph.plain) =
      (bodyIndex? depth code).map fun index => width (code.take index) := by
  induction code generalizing depth with
  | nil => rfl
  | cons glyph code ih =>
    obtain ⟨bytes, front, size, form⟩ := exists_byteForm glyph code
    rw [front, List.map_append]
    -- A glyph is one byte, or fillers that neither open nor close anything.
    cases form with
    | single one =>
      have shown : (Glyph.plain glyph.shown).shown = glyph.shown := rfl
      rw [List.map_singleton, List.singleton_append, bodyIndex?, bodyIndex?, shown]
      split
      · rfl
      · simp [ih, one, Function.comp_def, Nat.add_comm]
    | filler fills all _ =>
      rw [bodyIndex?_fillers all, ih, bodyIndex?, depthAfter_filler fills,
        if_neg fun both => fills.ne (by decide) (by decide) both.2]
      simp [size, Function.comp_def, Nat.add_comm]

/-- A search has found the body of a class in the code behind a place, or there is none. -/
inductive FindsBody (front : List Glyph) : List Glyph → Option (Nat × Nat) → Prop
  | missing {rest : List Glyph} (missing : classBody? rest = none) : FindsBody front rest none
  | found {before inside after : List Glyph} {opening closing : Glyph}
      (opens : Glyph.bracketOf opening.shown = .opens)
      (encloses : Encloses opening (inside ++ closing :: after) inside closing after)
      (found : classBody? (before ++ opening :: (inside ++ closing :: after)) = some inside) :
      FindsBody front (before ++ opening :: (inside ++ closing :: after))
        (some (width (front ++ before ++ [opening]), width (front ++ before ++ [opening]) + width inside))

/-- The body of a class is looked for without fail. -/
theorem classBodyFrom?_width (front rest : List Glyph) :
    ∃ offsets, classBodyFrom? (front ++ rest) (width front) = some offsets ∧
      FindsBody front rest offsets := by
  rw [classBodyFrom?, drop_maskedBytes, bodyIndex?_bytes]
  cases found : bodyIndex? 0 rest with
  | none => exact ⟨none, rfl, .missing (by simp [classBody?, found])⟩
  | some index =>
    obtain ⟨inner, opening, start, shown⟩ := drop_of_bodyIndex? found
    have one : Sized.size opening = 1 := size_of_shown (by decide) (by decide) shown
    have opens : Glyph.bracketOf opening.shown = .opens := by simp [Glyph.bracketOf, shown]
    have behind : rest.drop (index + 1) = inner := by rw [← List.drop_drop, start, List.drop_one, List.tail_cons]
    have body := classBody?.eq_def rest
    simp only [found, start, behind, Option.bind_eq_bind, Option.bind_some] at body
    obtain ⟨before, taken⟩ : ∃ before, rest.take index = before := ⟨_, rfl⟩
    have parts : rest = before ++ opening :: inner := by rw [← taken, ← start, List.take_append_drop]
    have cut : slice? (width front) (width front + width before) (front ++ rest) = some before := by
      rw [parts, ← List.append_assoc]
      exact slice?_width _ _ _
    have bytes : (maskedBytes (front ++ rest)).drop (width front + width before) =
        maskedBytes (opening :: inner) := by
      rw [parts, ← List.append_assoc, ← width_append, drop_maskedBytes]
    rw [taken] at body
    simp only [Option.map_some, taken, cut, bytes]
    refine ⟨_, rfl, ?_⟩
    -- A class declared in front of the brace has the body, so there is none of this one.
    by_cases declared : (Declaration.find ["class".toList] none before).isSome = true
    · rw [if_pos declared] at body ⊢
      exact .missing body
    rw [if_neg declared] at body ⊢
    rcases closeIndex_cases opens one inner with ⟨unclosed, none⟩ | ⟨inside, closing, after, encloses⟩
    · rw [unclosed] at body
      rw [none]
      exact .missing body
    -- The body is what is between the two braces, in the code and in its bytes.
    · have kept : inner.take (inside.length + 1 - 1) = inside := by
        rw [encloses.code, Nat.add_sub_cancel, List.take_left]
      rw [encloses.index, Option.bind_some, kept] at body
      have place : width front + width before + 1 = width (front ++ before ++ [opening]) := by
        rw [width_append _ [opening], width_append, width_cons, one, width_nil]
      have ends : width front + width before + (width inside + 1) =
          width (front ++ before ++ [opening]) + width inside := by
        rw [← place]
        omega
      rw [encloses.offset, Option.map_some, place, ends]
      have whole := encloses.code
      subst whole
      subst parts
      exact .found opens encloses body

end Entity

end IndexAudit
