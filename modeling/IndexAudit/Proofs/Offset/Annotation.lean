import IndexAudit.Proofs.Code.Annotation
import IndexAudit.Proofs.Offset.Literal
import IndexAudit.Proofs.Text.Search

/-!
Annotations read at their byte offsets.

The offset behind the annotations is where the code goes on that follows them.
-/

namespace IndexAudit

namespace AnnotationUse

/-- The offset behind the spacing that stands at an offset. -/
def skipFrom (bytes : List Char) (offset : Nat) : Nat :=
  offset + ((bytes.drop offset).takeWhile isSpacing).length

/--
The arguments behind the name of an annotation, and the offset behind them.

It fails if the code is cut inside a character.
-/
def argumentsFrom? (code : List Glyph) (offset : Nat) : Option (Option (List Char) × Nat) :=
  let bytes := maskedBytes code
  let opening := skipFrom bytes offset
  if bytes[opening]? = some '(' then
    match Nest.closeIndex Glyph.bracketOf 0 (bytes.drop opening) with
    | some close =>
      (slice? (opening + 1) (opening + close) code).map fun inside =>
        (some (Glyph.text inside), opening + close + 1)
    -- Without a closing parenthesis the arguments run to the end of the text.
    | none => (from? (opening + 1) code).map fun inside => (some (Glyph.text inside), bytes.length)
  else some (none, offset)

/--
The annotation at an offset, if there is one, and the offset behind it.

It fails if the code is cut inside a character.
-/
def readFrom? (code : List Glyph) (offset : Nat) : Option (Option (AnnotationUse × Nat)) :=
  let bytes := maskedBytes code
  let stop := offset + 1 + ((bytes.drop (offset + 1)).takeWhile isNameChar).length
  if bytes[offset]? = some '@' ∧ stop ≠ offset + 1 then do
    let name ← slice? (offset + 1) stop code
    let (args, next) ← argumentsFrom? code stop
    some (some (⟨simpleName (Glyph.shownText name), args⟩, next))
  else some none

/--
The annotations from an offset on, and the offset behind them.

It fails if the fuel does not suffice or if the code is cut inside a character.
-/
def leadingFrom? (code : List Glyph) : Nat → Nat → Option (List AnnotationUse × Nat)
  | 0, _ => none
  | fuel + 1, offset => do
    match ← readFrom? code offset with
    | none => some ([], offset)
    | some (first, next) =>
      let (later, behind) ← leadingFrom? code fuel (skipFrom (maskedBytes code) next)
      some (first :: later, behind)

/-- The annotations at the start of code, and the offset behind them. -/
def leading? (code : List Glyph) : Option (List AnnotationUse × Nat) :=
  leadingFrom? code (width code + 1) (skipFrom (maskedBytes code) 0)

/-- Spacing is told by single bytes. -/
theorem isByteTest_isSpacing : IsByteTest isSpacing := by
  -- Spacing is in ASCII, where bytes are characters.
  refine isByteTest_of_ascii fun c spaced => ?_
  simp only [isSpacing, Bool.or_eq_true, decide_eq_true_eq] at spaced
  rcases spaced with (((rfl | rfl) | rfl) | rfl) | rfl <;> decide

/-- The characters of a name are told by single bytes. -/
theorem isByteTest_isNameChar : IsByteTest isNameChar := by
  refine isByteTest_of_ascii fun c named => ?_
  simp only [isNameChar, Bool.or_eq_true, decide_eq_true_eq] at named
  -- The characters of a name are in ASCII.
  rcases named with ((plain | rfl) | rfl) | rfl
  · exact toNat_of_isAlphanum plain
  all_goals decide

/-- Spacing is skipped up to the offset at which something else begins. -/
theorem skipFrom_width (front rest : List Glyph) :
    skipFrom (maskedBytes (front ++ rest)) (width front) =
      width (front ++ rest.takeWhile fun glyph => isSpacing glyph.shown) := by
  -- The bytes that pass the test are those of the spacing, which is in ASCII.
  rw [skipFrom, drop_maskedBytes, length_takeWhile_bytes isByteTest_isSpacing, width_append]

/-- Code is its spacing at the front and what follows it. -/
theorem spacing_append (code : List Glyph) :
    (code.takeWhile fun glyph => isSpacing glyph.shown) ++ skipSpacing code = code :=
  List.takeWhile_append_dropWhile

/-- The byte behind spacing is what is looked for if the first character behind it is. -/
theorem getElem?_skipFrom {c : Char} (ascii : c.toNat < 0x80) (noSpace : c ≠ ' ') (front rest : List Glyph) :
    (maskedBytes (front ++ rest))[skipFrom (maskedBytes (front ++ rest)) (width front)]? = some c ↔
      (skipSpacing rest).head?.map (·.shown) = some c := by
  -- Behind the front and the spacing the first character tells the byte.
  have behind := getElem?_width ascii noSpace
    (front ++ rest.takeWhile fun glyph => isSpacing glyph.shown) (skipSpacing rest)
  rwa [List.append_assoc, spacing_append, ← skipFrom_width] at behind

/--
How the arguments of an annotation are read behind its name.

There are none without a bracket behind the spacing, and else they go up to the bracket that closes
that one, or to the end.
-/
inductive ReadsArguments (rest : List Glyph) : Prop
  | missing (noBracket : (skipSpacing rest).head?.map (·.shown) ≠ some '(')
      (read : readArguments rest = (none, rest)) : ReadsArguments rest
  | unclosed {gap inner : List Glyph} {opening : Glyph} (whole : rest = gap ++ opening :: inner)
      (spaced : (rest.takeWhile fun glyph => isSpacing glyph.shown) = gap)
      (shown : opening.shown = '(')
      (stays : Nest.closeIndex Glyph.bracketOf 0 (maskedBytes (opening :: inner)) = none)
      (read : readArguments rest = (some (Glyph.text inner), [])) : ReadsArguments rest
  | closed {gap inside after : List Glyph} {opening closing : Glyph}
      (whole : rest = gap ++ opening :: (inside ++ closing :: after))
      (spaced : (rest.takeWhile fun glyph => isSpacing glyph.shown) = gap)
      (shown : opening.shown = '(')
      (encloses : Encloses opening (inside ++ closing :: after) inside closing after)
      (read : readArguments rest = (some (Glyph.text inside), after)) : ReadsArguments rest

/-- The arguments of each annotation are read in one of these ways. -/
theorem readsArguments (rest : List Glyph) : ReadsArguments rest := by
  have whole := spacing_append rest
  have read := readArguments.eq_def rest
  cases behind : skipSpacing rest with
  | nil =>
    simp only [behind] at read
    exact .missing (by simp [behind]) read
  | cons opening inner =>
    by_cases shown : opening.shown = '('
    -- Anything but an opening parenthesis leaves the annotation without arguments.
    case neg =>
      simp only [behind, shown, if_false] at read
      exact .missing (by simp [behind, shown]) read
    simp only [behind, shown, if_true] at read
    rw [behind] at whole
    have one : Sized.size opening = 1 := size_of_shown (by decide) (by decide) shown
    have opens : Glyph.bracketOf opening.shown = .opens := by simp [Glyph.bracketOf, shown]
    -- Both searches agree on whether the parenthesis is closed, and where.
    rcases closeIndex_cases opens one inner with ⟨none, stays⟩ | ⟨inside, closing, after, encloses⟩
    · simp only [none] at read
      exact .unclosed whole.symm rfl shown stays read
    · have place := encloses.code
      simp only [encloses.index] at read
      subst place
      have kept : (inside ++ closing :: after).take (inside.length + 1 - 1) = inside := by simp
      have left : (inside ++ closing :: after).drop (inside.length + 1) = after := by simp
      rw [kept, left] at read
      exact .closed whole.symm rfl shown encloses read

/-- A bracket behind spacing takes up the byte at the offset behind that. -/
theorem skipFrom_opening (front : List Glyph) {rest gap inner : List Glyph} {opening : Glyph}
    (whole : rest = gap ++ opening :: inner)
    (spaced : (rest.takeWhile fun glyph => isSpacing glyph.shown) = gap)
    (shown : opening.shown = '(') :
    skipFrom (maskedBytes (front ++ rest)) (width front) = width (front ++ gap) ∧
      (maskedBytes (front ++ rest))[width (front ++ gap)]? = some '(' ∧
      width (front ++ gap ++ [opening]) = width (front ++ gap) + 1 := by
  -- A parenthesis is one byte, so what is behind it begins at the next offset.
  have one : Sized.size opening = 1 := size_of_shown (by decide) (by decide) shown
  have code : front ++ rest = front ++ gap ++ opening :: inner := by rw [whole, List.append_assoc]
  refine ⟨by rw [skipFrom_width, spaced], ?_, ?_⟩
  · rw [code, getElem?_width (by decide) (by decide)]
    simp [shown]
  · rw [width_append _ [opening], width_cons, one, width_nil]

/-- The arguments of an annotation are read where its name ends. -/
theorem argumentsFrom?_width (front rest : List Glyph) :
    ∃ taken, rest = taken ++ (readArguments rest).2 ∧
      argumentsFrom? (front ++ rest) (width front) =
        some ((readArguments rest).1, width (front ++ taken)) := by
  cases readsArguments rest with
  | missing noBracket read =>
    -- Without a parenthesis, the annotation ends with its name.
    have absent := mt (getElem?_skipFrom (by decide) (by decide) front rest).mp noBracket
    refine ⟨[], by rw [read, List.nil_append], ?_⟩
    rw [argumentsFrom?, if_neg absent, read, List.append_nil]
  | @unclosed gap inner opening whole spaced shown stays read =>
    obtain ⟨start, opened, next⟩ := skipFrom_opening front whole spaced shown
    have code : front ++ rest = front ++ gap ++ opening :: inner := by rw [whole, List.append_assoc]
    have cut : from? (width (front ++ gap) + 1) (front ++ gap ++ opening :: inner) = some inner := by
      have part := from?_width (front ++ gap ++ [opening]) inner
      rw [next] at part
      simpa using part
    refine ⟨rest, by rw [read, List.append_nil], ?_⟩
    rw [argumentsFrom?, start, if_pos opened, code, drop_maskedBytes]
    simp only [stays, cut, read, length_maskedBytes]
    rfl
  | @closed gap inside after opening closing whole spaced shown encloses read =>
    obtain ⟨start, opened, next⟩ := skipFrom_opening front whole spaced shown
    have code : front ++ rest = front ++ gap ++ opening :: (inside ++ closing :: after) := by
      rw [whole, List.append_assoc]
    have cut : slice? (width (front ++ gap) + 1) (width (front ++ gap) + (width inside + 1))
        (front ++ gap ++ opening :: (inside ++ closing :: after)) = some inside := by
      have part := slice?_width (front ++ gap ++ [opening]) inside (closing :: after)
      rw [next, Nat.add_assoc, Nat.add_comm 1] at part
      simpa using part
    have last := encloses.size
    refine ⟨gap ++ opening :: inside ++ [closing], by rw [read, whole]; simp, ?_⟩
    rw [argumentsFrom?, start, if_pos opened, code, drop_maskedBytes]
    simp only [encloses.offset, cut, read, Option.map_some]
    rw [width_append, width_append] at next
    simp only [width_append, width_cons, width_nil, last] at next ⊢
    congr 2
    omega

/-- An annotation is read at the offset at which it begins. -/
theorem readFrom?_width (front rest : List Glyph) :
    (read? rest = none ∧ readFrom? (front ++ rest) (width front) = some none) ∨
      ∃ note taken after, rest = taken ++ after ∧ read? rest = some (note, after) ∧
        readFrom? (front ++ rest) (width front) = some (some (note, width (front ++ taken))) := by
  have begins := getElem?_width (c := '@') (by decide) (by decide) front rest
  cases rest with
  | nil =>
    left
    refine ⟨rfl, ?_⟩
    rw [readFrom?, if_neg fun both => by simpa using begins.mp both.1]
  | cons glyph inner =>
    -- One byte tells whether an annotation begins here.
    by_cases sign : glyph.shown = '@'
    case neg =>
      left
      refine ⟨by rw [read?]; simp [sign], ?_⟩
      rw [readFrom?, if_neg fun both => sign (by simpa using begins.mp both.1)]
    case pos =>
      have one : Sized.size glyph = 1 := size_of_shown (by decide) (by decide) sign
      have start : width front + 1 = width (front ++ [glyph]) := by
        rw [width_append, width_cons, one, width_nil]
      have code : front ++ glyph :: inner = front ++ [glyph] ++ inner := by simp
      have read := read?.eq_def (glyph :: inner)
      simp only [sign, true_and] at read
      obtain ⟨name, after, parts, named⟩ : ∃ name after, inner = name ++ after ∧
          (inner.takeWhile fun g => isNameChar g.shown) = name :=
        ⟨_, _, List.takeWhile_append_dropWhile.symm, rfl⟩
      -- The bytes of the name are those of its characters, none of which is a filler.
      have stop : (((maskedBytes (front ++ glyph :: inner)).drop (width front + 1)).takeWhile
          isNameChar).length = width name := by
        rw [code, start, drop_maskedBytes, length_takeWhile_bytes isByteTest_isNameChar, named]
      rw [named] at read
      rw [readFrom?, stop]
      by_cases empty : name = []
      · left
        rw [if_neg (not_not_intro empty)] at read
        exact ⟨read, if_neg fun both => both.2 (by rw [empty]; rfl)⟩
      · right
        have filled : width front + 1 + width name ≠ width front + 1 := fun same =>
          empty (eq_nil_of_width (by omega))
        have cut : slice? (width front + 1) (width front + 1 + width name) (front ++ glyph :: inner) =
            some name := by
          rw [code, start, parts, ← List.append_assoc]
          exact slice?_width _ _ _
        -- Behind the name the arguments are read from where it ends.
        obtain ⟨taken, arguments, found⟩ := argumentsFrom?_width (front ++ glyph :: name) after
        have place : front ++ glyph :: inner = front ++ glyph :: name ++ after := by simp [parts]
        have next : width front + 1 + width name = width (front ++ glyph :: name) := by
          rw [width_append, width_cons, one, Nat.add_assoc]
        have behind : inner.drop name.length = after := by rw [parts, List.drop_left]
        rw [if_pos empty, behind] at read
        refine ⟨_, glyph :: name ++ taken, _, ?_, read, ?_⟩
        · rw [parts, List.append_assoc, ← arguments, List.cons_append]
        · rw [if_pos ⟨begins.mpr (by simp [sign]), filled⟩, cut, Option.bind_eq_bind, Option.bind_some,
            next, place, found, Option.bind_eq_bind, Option.bind_some, List.append_assoc]

/-- The annotations at the start of code are read, and the code goes on behind them. -/
theorem leadingFrom?_width (front rest : List Glyph) {fuel : Nat} (enough : rest.length < fuel) :
    ∃ taken, rest = taken ++ (leading rest).2 ∧
      leadingFrom? (front ++ rest) fuel (skipFrom (maskedBytes (front ++ rest)) (width front)) =
        some ((leading rest).1, width (front ++ taken)) := by
  induction fuel generalizing front rest with
  | zero => omega
  | succ fuel ih =>
    have gap := spacing_append rest
    rw [skipFrom_width]
    generalize (rest.takeWhile fun glyph => isSpacing glyph.shown) = spaces at gap ⊢
    have code : front ++ rest = front ++ spaces ++ skipSpacing rest := by rw [List.append_assoc, gap]
    rw [code, leadingFrom?, leading_eq]
    rcases readFrom?_width (front ++ spaces) (skipSpacing rest) with
      ⟨none, read⟩ | ⟨note, taken, after, whole, found, read⟩
    · rw [none, read]
      exact ⟨spaces, gap.symm, rfl⟩
    -- An annotation takes up something, so the fuel lasts for those behind it.
    · have shorter : after.length < fuel := by
        have less := read?_length found
        have within : (skipSpacing rest).length ≤ rest.length := dropWhile_length _ _
        omega
      obtain ⟨more, later, goesOn⟩ := ih (front ++ spaces ++ taken) after shorter
      have place : front ++ spaces ++ skipSpacing rest = front ++ spaces ++ taken ++ after := by
        rw [whole, List.append_assoc _ taken]
      refine ⟨spaces ++ taken ++ more, ?_, ?_⟩
      · simp only [found]
        rw [List.append_assoc, ← later, List.append_assoc, ← whole, gap]
      · rw [read, Option.bind_eq_bind, Option.bind_some, place, found, ← List.append_assoc,
          ← List.append_assoc]
        simp only [goesOn, Option.bind_eq_bind, Option.bind_some]

/-- The annotations at the start of code are read without fail. -/
theorem leading?_eq (code : List Glyph) :
    ∃ taken, code = taken ++ (leading code).2 ∧ leading? code = some ((leading code).1, width taken) :=
  -- The search is started with more fuel than there are bytes.
  leadingFrom?_width [] code (Nat.lt_succ_of_le (length_le_width code))

end AnnotationUse

end IndexAudit
