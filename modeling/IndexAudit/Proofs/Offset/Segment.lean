import IndexAudit.Code.Segment
import IndexAudit.Proofs.Code.Enclosure
import IndexAudit.Proofs.Code.Member
import IndexAudit.Proofs.Offset.Annotation

/-!
The members of a body found at their byte offsets.

A walk goes from byte to byte, jumps behind each block, and notes where each stretch begins and ends.
-/

namespace IndexAudit

/-- What is found one place behind an element is found at its place without that element. -/
theorem eq_of_map_succ {found : Option Nat} {place : Nat}
    (behind : found.map (· + 1) = some (place + 1)) : found = some place := by
  -- One place behind the position is one place behind the place.
  obtain ⟨position, rfl, same⟩ := Option.map_eq_some_iff.mp behind
  rw [Nat.succ.inj same]

/-- A bracket that opens inside of another one is closed in front of where the other one is. -/
theorem Nest.exists_closeIndex {α : Type} {nest : α → Nest} {depth inner : Nat} {list back : List α}
    (closed : closeIndex nest depth (list ++ back) = some list.length) (positive : 0 < inner)
    (deeper : inner < depth) : ∃ position, closeIndex nest inner list = some position := by
  -- The inner depth stays below the outer one, so it comes back to nothing first.
  induction list generalizing depth inner with
  | nil =>
    obtain ⟨front, x, rest, whole, none, closes⟩ := closes_of_closeIndex closed
    obtain rfl := List.eq_nil_of_length_eq_zero none
    rw [List.nil_append] at whole closed
    subst whole
    obtain ⟨depth, rfl⟩ : ∃ more, depth = more + 2 := ⟨depth - 2, by omega⟩
    simp [closeIndex, closes] at closed
  | cons x list ih =>
    rw [List.cons_append, closeIndex.eq_def] at closed
    rw [closeIndex.eq_def]
    cases bracket : nest x with
    | opens =>
      simp only [bracket] at closed ⊢
      obtain ⟨position, found⟩ := ih (eq_of_map_succ closed) (Nat.succ_pos inner) (Nat.succ_lt_succ deeper)
      exact ⟨position + 1, by rw [found]; rfl⟩
    | level =>
      simp only [bracket] at closed ⊢
      obtain ⟨position, found⟩ := ih (eq_of_map_succ closed) positive deeper
      exact ⟨position + 1, by rw [found]; rfl⟩
    | closes =>
      obtain ⟨depth, rfl⟩ : ∃ more, depth = more + 2 := ⟨depth - 2, by omega⟩
      by_cases last : inner = 1
      · subst last
        exact ⟨0, by simp [bracket]⟩
      · obtain ⟨inner, rfl⟩ : ∃ more, inner = more + 2 := ⟨inner - 2, by omega⟩
        simp only [bracket] at closed ⊢
        obtain ⟨position, found⟩ := ih (eq_of_map_succ closed) (Nat.succ_pos inner) (by omega)
        exact ⟨position + 1, by rw [found]; rfl⟩

namespace Segment

/-- Code in front of the bracket that closes what encloses it, or at the end of everything. -/
def IsEnclosed (code back : List Glyph) : Prop :=
  back = [] ∨ ∃ depth, Nest.closeIndex (fun glyph => Glyph.bracketOf glyph.shown) (depth + 1)
    (code ++ back) = some code.length

/-- What stands between a bracket and the one that closes it is enclosed. -/
theorem isEnclosed_of_encloses {glyph closing : Glyph} {rest inside after : List Glyph}
    (encloses : Encloses glyph rest inside closing after)
    (opens : Glyph.bracketOf glyph.shown = .opens) : IsEnclosed inside (closing :: after) := by
  -- The search from the opening bracket begins inside of one, and goes on in the rest.
  have closed := encloses.index
  rw [Glyph.closeIndex, Nest.closeIndex.eq_def, encloses.code] at closed
  simp only [opens] at closed
  exact .inr ⟨0, eq_of_map_succ closed⟩

/-- What follows the first character of enclosed code is enclosed too. -/
theorem IsEnclosed.tail {glyph : Glyph} {code back : List Glyph}
    (enclosed : IsEnclosed (glyph :: code) back) : IsEnclosed code back := by
  rcases enclosed with rfl | ⟨depth, closed⟩
  · exact .inl rfl
  · right
    rw [List.cons_append, Nest.closeIndex.eq_def] at closed
    -- The bracket that closes the code may have one more, one fewer or as many in front of it.
    cases bracket : Glyph.bracketOf glyph.shown with
    | opens => exact ⟨depth + 1, eq_of_map_succ (by simpa only [bracket, List.length_cons] using closed)⟩
    | level => exact ⟨depth, eq_of_map_succ (by simpa only [bracket, List.length_cons] using closed)⟩
    | closes =>
      cases depth with
      | zero => simp [bracket] at closed
      | succ depth => exact ⟨depth, eq_of_map_succ (by simpa only [bracket, List.length_cons] using closed)⟩

/-- Any end of enclosed code is enclosed too. -/
theorem IsEnclosed.suffix {front code back : List Glyph} (enclosed : IsEnclosed (front ++ code) back) :
    IsEnclosed code back := by
  -- Enclosed code stays enclosed without its first character.
  induction front with
  | nil => exact enclosed
  | cons glyph front ih => exact ih enclosed.tail

/-- A bracket inside of enclosed code is closed there, if at all. -/
theorem IsEnclosed.closeIndex {glyph : Glyph} {code back : List Glyph}
    (enclosed : IsEnclosed (glyph :: code) back) (opens : Glyph.bracketOf glyph.shown = .opens) :
    Glyph.closeIndex (glyph :: code ++ back) = Glyph.closeIndex (glyph :: code) := by
  rcases enclosed with rfl | ⟨depth, closed⟩
  · rw [List.append_nil]
  · rw [List.cons_append, Nest.closeIndex.eq_def] at closed
    simp only [opens] at closed
    -- Its bracket is one level deeper than that of the code around it.
    obtain ⟨inner, here⟩ :=
      Nest.exists_closeIndex (eq_of_map_succ closed) Nat.one_pos (by omega)
    have whole : Glyph.closeIndex (glyph :: code) = some (inner + 1) := by
      rw [Glyph.closeIndex, Nest.closeIndex.eq_def]
      simp only [opens, here, Nat.zero_add, Option.map_some]
    rw [whole]
    exact Nest.closeIndex_append whole back

/-- A stretch of a body by its offsets, and whether a block ends it. -/
structure Span where
  start : Nat
  stop : Nat
  opensBlock : Bool
deriving Repr, DecidableEq

/-- The offset behind the block that opens at an offset; an open block has only the end behind it. -/
def behindBlock (stop offset : Nat) (bytes : List Char) : Nat :=
  match Nest.closeIndex Glyph.bracketOf 0 (bytes.drop offset) with
  | some close => offset + close + 1
  | none => stop + 1

/--
The stretches of a body between an offset and its end.

It fails if the fuel does not suffice, if an index is out of range, or if the code is cut inside a
character.
-/
def walk? (runsOn : List Char → Bool) (code : List Glyph) (stop : Nat) :
    Nat → Nat → Nat → Nat → Option (List Span)
  | 0, _, _, _ => none
  | fuel + 1, start, depth, offset =>
    let bytes := maskedBytes code
    if offset < stop then do
      let byte ← bytes[offset]?
      -- A block ends the segment in front of it and is jumped over.
      if depth = 0 ∧ byte = '\x7b' then
        let next := behindBlock stop offset bytes
        let later ← walk? runsOn code stop fuel next 0 next
        some (⟨start, offset, true⟩ :: later)
      else if depth = 0 ∧ (byte = ';' ∨ byte = '\n') then
        let current ← slice? start offset code
        if byte = '\n' ∧ runsOn (Glyph.shownText current) then
          walk? runsOn code stop fuel start 0 (offset + 1)
        else
          let later ← walk? runsOn code stop fuel (offset + 1) 0 (offset + 1)
          some (⟨start, offset, false⟩ :: later)
      else walk? runsOn code stop fuel start (depthAfter depth byte) (offset + 1)
    else some (if start < stop then [⟨start, stop, false⟩] else [])

/-- A byte nests as the character that it belongs to. -/
theorem depthAfter_byte {byte c : Char} (same : ∀ d : Char, d.toNat < 0x80 → d ≠ ' ' → (byte = d ↔ c = d))
    (depth : Nat) : depthAfter depth byte = depthAfter depth c := by
  -- The four brackets are in ASCII and no spaces, so byte and character are the same one.
  simp only [depthAfter, same '(' (by decide) (by decide), same '[' (by decide) (by decide),
    same ')' (by decide) (by decide), same ']' (by decide) (by decide)]

section Walk

variable {runsOn : List Char → Bool} {code front rest : List Glyph} {glyph : Glyph} {stop : Nat}

/-- A walk passes a character that ends no stretch. -/
theorem walk?_on (whole : code = front ++ glyph :: rest)
    (inside : width front + Sized.size glyph ≤ stop) {depth : Nat}
    (noBlock : ¬ (depth = 0 ∧ glyph.shown = '{'))
    (noEnd : ¬ (depth = 0 ∧ (glyph.shown = ';' ∨ glyph.shown = '\n'))) (fuel start : Nat) :
    walk? runsOn code stop (fuel + Sized.size glyph) start depth (width front) =
      walk? runsOn code stop fuel start (depthAfter depth glyph.shown) (width (front ++ [glyph])) := by
  have step : ∀ place < Sized.size glyph, ∀ fuel,
      walk? runsOn code stop (fuel + 1) start depth (width front + place) =
        walk? runsOn code stop fuel start (depthAfter depth glyph.shown) (width front + place + 1) := by
    intro place within fuel
    obtain ⟨byte, found, same⟩ := exists_byte front rest within
    rw [walk?, whole, found]
    simp only [same '{' (by decide) (by decide), same ';' (by decide) (by decide),
      same '\n' (by decide) (by decide), Option.bind_eq_bind, Option.bind_some,
      if_pos (show width front + place < stop by omega), if_neg noBlock, if_neg noEnd,
      depthAfter_byte same]
  rw [width_append, width_cons, width_nil, Nat.add_zero]
  by_cases level : depthAfter depth glyph.shown = depth
  · rw [level] at step ⊢
    exact loop_skip (fun fuel offset => walk? runsOn code stop fuel start depth offset) _ _ step
  · -- Only a bracket, which takes up one byte, changes the nesting.
    have one : Sized.size glyph = 1 := by
      have bracket : glyph.shown = '(' ∨ glyph.shown = '[' ∨ glyph.shown = ')' ∨ glyph.shown = ']' := by
        by_contra none
        simp only [not_or] at none
        exact level (by simp [depthAfter, none])
      rcases bracket with shown | shown | shown | shown <;>
        exact size_of_shown (by decide) (by decide) shown
    rw [one]
    exact step 0 (by omega) fuel

/-- At a semicolon or a line break, a walk cuts out what it has passed. -/
theorem walk?_stop {current : List Glyph} (whole : code = front ++ current ++ glyph :: rest)
    (inside : width (front ++ current) < stop) (stops : glyph.shown = ';' ∨ glyph.shown = '\n')
    (fuel : Nat) :
    walk? runsOn code stop (fuel + 1) (width front) 0 (width (front ++ current)) =
      if glyph.shown = '\n' ∧ runsOn (Glyph.shownText current) then
        walk? runsOn code stop fuel (width front) 0 (width (front ++ current ++ [glyph]))
      else
        (walk? runsOn code stop fuel (width (front ++ current ++ [glyph])) 0
          (width (front ++ current ++ [glyph]))).map
          (⟨width front, width (front ++ current), false⟩ :: ·) := by
  have one : Sized.size glyph = 1 := by
    rcases stops with shown | shown <;> exact size_of_shown (by decide) (by decide) shown
  have next : width (front ++ current) + 1 = width (front ++ current ++ [glyph]) := by
    rw [width_append _ [glyph], width_cons, one, width_nil]
  have cut : slice? (width front) (width (front ++ current)) code = some current := by
    rw [whole, width_append]
    exact slice?_width front current (glyph :: rest)
  -- The marks that end a member open no block.
  have noBlock : glyph.shown ≠ '{' := by
    intro opens
    rcases stops with shown | shown <;> (rw [shown] at opens; revert opens; decide)
  obtain ⟨byte, found, same⟩ := exists_firstByte (front ++ current) glyph rest
  rw [walk?, whole, found, ← whole]
  simp only [same '{' (by decide) (by decide), same ';' (by decide) (by decide),
    same '\n' (by decide) (by decide), Option.bind_eq_bind, Option.bind_some, if_pos inside,
    true_and, if_neg noBlock, if_pos stops, cut, next, Option.map_eq_bind]
  rfl

/-- At a block, a walk cuts out what it has passed and jumps behind the block. -/
theorem walk?_block {current : List Glyph} (whole : code = front ++ current ++ glyph :: rest)
    (inside : width (front ++ current) < stop) (opens : glyph.shown = '{') (fuel : Nat) :
    walk? runsOn code stop (fuel + 1) (width front) 0 (width (front ++ current)) =
      (walk? runsOn code stop fuel (behindBlock stop (width (front ++ current)) (maskedBytes code)) 0
        (behindBlock stop (width (front ++ current)) (maskedBytes code))).map
        (⟨width front, width (front ++ current), true⟩ :: ·) := by
  obtain ⟨byte, found, same⟩ := exists_firstByte (front ++ current) glyph rest
  -- A brace is one byte, so the byte at the offset shows whether it is there.
  have block : byte = '{' := (same '{' (by decide) (by decide)).mpr opens
  rw [walk?, if_pos inside, whole, found, ← whole]
  simp only [Option.bind_eq_bind, Option.bind_some, true_and, if_pos block, Option.map_eq_bind]
  rfl

/-- The code behind a block goes on at the offset behind it, unless nothing is behind it. -/
theorem behindBlock_eq (stop : Nat) (front : List Glyph) {inner back : List Glyph}
    (whole : code = front ++ (glyph :: inner ++ back))
    (opens : Glyph.bracketOf glyph.shown = .opens) (enclosed : IsEnclosed (glyph :: inner) back) :
    (afterBlock (glyph :: inner) = [] ∧ behindBlock stop (width front) (maskedBytes code) = stop + 1) ∨
      ∃ block, glyph :: inner = block ++ afterBlock (glyph :: inner) ∧
        behindBlock stop (width front) (maskedBytes code) = width (front ++ block) := by
  have bytes := closeIndex_bytes 0 (glyph :: inner ++ back)
  have same : Nest.closeIndex (fun glyph => Glyph.bracketOf glyph.shown) 0 (glyph :: inner ++ back) =
      Glyph.closeIndex (glyph :: inner) := enclosed.closeIndex opens
  rw [behindBlock, whole, drop_maskedBytes, bytes, same, afterBlock]
  -- A block that is not closed takes all that is left.
  cases found : Glyph.closeIndex (glyph :: inner) with
  | none => exact .inl ⟨rfl, rfl⟩
  | some close =>
    right
    obtain ⟨inside, closing, after, parts, length, closes⟩ := Nest.closes_of_closeIndex found
    have one := size_of_closes closes
    have taken : (glyph :: inner ++ back).take close = inside := by
      rw [parts, List.append_assoc, ← length, List.take_left]
    have left : (glyph :: inner).drop (close + 1) = after := by
      rw [parts, ← length]
      simp
    refine ⟨inside ++ [closing], ?_, ?_⟩
    · simp only [left]
      rw [parts, List.append_assoc]
      rfl
    · simp only [Option.map_some, taken, width_append, width_cons, one, width_nil]
      omega

/-- A segment stands at the offsets of a stretch, and on the line that the code in front of it ends on. -/
def IsAt (code before : List Glyph) (line : Nat) (segment : Segment) (span : Span) : Prop :=
  ∃ front back, code = before ++ front ++ segment.code ++ back ∧
    span = ⟨width (before ++ front), width (before ++ front) + width segment.code, segment.opensBlock⟩ ∧
    segment.line = line + lineBreaks front

/-- A segment that holds nothing and owns no block. -/
def IsEmpty (segment : Segment) : Prop :=
  segment.code = [] ∧ segment.opensBlock = false

/-- A character that a search sees as another one than a space is that one. -/
theorem char_of_shown {c : Char} (noSpace : c ≠ ' ') (shown : glyph.shown = c) : glyph.char = c := by
  -- A hidden character is seen as a space.
  cases hidden : glyph.hidden with
  | true => exact absurd (shown.symm.trans (if_pos hidden)) noSpace
  | false => simpa [Glyph.shown, hidden] using shown

/-- The end of a segment breaks the line if it is a line break. -/
theorem lineBreaks_stop (stops : glyph.shown = ';' ∨ glyph.shown = '\n') :
    lineBreaks [glyph] = if glyph.shown = '\n' then 1 else 0 := by
  -- A semicolon is no line break, and the other end is one.
  rcases stops with shown | shown
  · have char : glyph.char = ';' := char_of_shown (by decide) shown
    rw [shown, if_neg (by decide)]
    simp [lineBreaks, Glyph.text, char]
  · have char : glyph.char = '\n' := char_of_shown (by decide) shown
    rw [shown, if_pos rfl]
    simp [lineBreaks, Glyph.text, char]

/-- Stretches are found for segments, except for empty ones at the end. -/
def Locates (code before : List Glyph) (line : Nat) (found : Option (List Span))
    (collected : List Segment) : Prop :=
  ∃ spans segments ending, found = some spans ∧ collected = segments ++ ending ∧
    (∀ segment ∈ ending, IsEmpty segment) ∧ List.Forall₂ (IsAt code before line) segments spans

/-- One more stretch is found in front of others, where one more segment stands. -/
theorem Locates.cons {before : List Glyph} {line : Nat} {segment : Segment} {span : Span}
    {found : Option (List Span)} {collected : List Segment}
    (here : IsAt code before line segment span) (later : Locates code before line found collected) :
    Locates code before line (found.map (span :: ·)) (segment :: collected) := by
  -- The others are located already, with their own ending.
  obtain ⟨spans, segments, ending, rfl, rfl, empty, located⟩ := later
  exact ⟨span :: spans, segment :: segments, ending, rfl, rfl, empty, .cons here located⟩

/--
A walk has come to the rest of a body.

`current` is what it has passed since the last end, in reverse order, and `front` is what stands in
front of that.
-/
structure HasReached (code before back : List Glyph) (stop : Nat) (front current rest : List Glyph) :
    Prop where
  whole : code = before ++ front ++ current.reverse ++ (rest ++ back)
  ends : stop = width (before ++ front ++ current.reverse ++ rest)
  enclosed : IsEnclosed rest back

/-- From here on, a walk finds the segments that are collected. -/
def Finds (runsOn : List Char → Bool) (code before : List Glyph) (stop line fuel depth : Nat)
    (front current rest : List Glyph) : Prop :=
  Locates code before line
    (walk? runsOn code stop fuel (width (before ++ front)) depth
      (width (before ++ front ++ current.reverse)))
    (collect runsOn (line + lineBreaks front) depth current rest)

namespace HasReached

variable {before back current : List Glyph}

/-- A character that is passed belongs to what has been passed since the last end. -/
theorem pass (reached : HasReached code before back stop front current (glyph :: rest)) :
    HasReached code before back stop front (glyph :: current) rest where
  -- The character moves from the rest to what has been passed.
  whole := by simpa using reached.whole
  ends := by simpa using reached.ends
  enclosed := reached.enclosed.tail

/-- Behind an end, nothing has been passed. -/
theorem goOn {gone left : List Glyph}
    (reached : HasReached code before back stop front current (gone ++ left)) :
    HasReached code before back stop (front ++ (current.reverse ++ gone)) [] left where
  -- What has been passed moves in front, with the end of the segment.
  whole := by simpa using reached.whole
  ends := by simpa using reached.ends
  enclosed := reached.enclosed.suffix

/-- What has been passed since the last end is a segment at its offsets. -/
theorem isAt (reached : HasReached code before back stop front current rest) (line : Nat)
    (opensBlock : Bool) :
    IsAt code before line ⟨current.reverse, line + lineBreaks front, opensBlock⟩
      ⟨width (before ++ front), width (before ++ front ++ current.reverse), opensBlock⟩ :=
  -- What is in front and behind is what the scan has passed and what it has left.
  ⟨front, rest ++ back, reached.whole, by rw [width_append _ current.reverse], rfl⟩

/-- The next character is one of the code in front of the end. -/
theorem inside (reached : HasReached code before back stop front current (glyph :: rest)) :
    code = before ++ front ++ current.reverse ++ glyph :: (rest ++ back) ∧
      width (before ++ front ++ current.reverse) + Sized.size glyph ≤ stop := by
  -- The end lies behind the rest, of which the character is the first.
  refine ⟨by simpa using reached.whole, ?_⟩
  rw [reached.ends, width_append _ (glyph :: rest), width_cons]
  omega

/-- At the end, a walk finds what it has passed since the last end, if that is anything. -/
theorem finds_end (reached : HasReached code before back stop front current [])
    (line depth fuel : Nat) : Finds runsOn code before stop line (fuel + 1) depth front current [] := by
  have ends := reached.ends
  rw [List.append_nil] at ends
  rw [Finds, walk?, if_neg (by omega), collect]
  by_cases passed : width (before ++ front) < stop
  · rw [if_pos passed]
    exact ⟨_, [_], [], rfl, rfl, by simp, .cons (ends ▸ reached.isAt line false) .nil⟩
  -- With nothing left in front of the end there is no span, but an empty segment.
  · rw [if_neg passed]
    have nothing : current.reverse = [] := eq_nil_of_width (by
      rw [ends, width_append _ current.reverse] at passed
      omega)
    exact ⟨[], [], [_], rfl, rfl, by simp [IsEmpty, nothing], .nil⟩

/-- Past a character that ends no segment, a walk goes on with the same one. -/
theorem finds_on (reached : HasReached code before back stop front current (glyph :: rest))
    {line depth fuel : Nat} (noBlock : ¬ (depth = 0 ∧ glyph.shown = '{'))
    (noEnd : ¬ (depth = 0 ∧ (glyph.shown = ';' ∨ glyph.shown = '\n')))
    (later : Finds runsOn code before stop line fuel (depthAfter depth glyph.shown) front
      (glyph :: current) rest) :
    Finds runsOn code before stop line (fuel + Sized.size glyph) depth front current
      (glyph :: rest) := by
  obtain ⟨place, within⟩ := reached.inside
  -- Where the walk sees neither a semicolon nor a break, the scan by lists sees no end.
  have noStop : ¬ (depth = 0 ∧ (glyph.shown = ';' ∨
      (glyph.shown = '\n' ∧ ¬ runsOn (Glyph.shownText current.reverse) = true))) :=
    fun both => noEnd ⟨both.1, both.2.imp_right And.left⟩
  rw [Finds, walk?_on place within noBlock noEnd, collect, if_neg noBlock, if_neg noStop]
  simpa [Finds] using later

/-- Past a line break behind which it runs on, a segment goes on too. -/
theorem finds_runsOn (reached : HasReached code before back stop front current (glyph :: rest))
    {line fuel : Nat} (lineBreak : glyph.shown = '\n')
    (runs : runsOn (Glyph.shownText current.reverse) = true)
    (later : Finds runsOn code before stop line fuel 0 front (glyph :: current) rest) :
    Finds runsOn code before stop line (fuel + 1) 0 front current (glyph :: rest) := by
  obtain ⟨place, within⟩ := reached.inside
  have positive := Sized.positive glyph
  -- Both walks stop at the line break and see that the segment runs on.
  rw [Finds, walk?_stop place (by omega) (.inr lineBreak), if_pos ⟨lineBreak, runs⟩, collect,
    if_neg (by simp [lineBreak]), if_neg (by simp [lineBreak, runs]), lineBreak,
    show depthAfter 0 '\n' = 0 from rfl]
  simpa [Finds] using later

/-- A semicolon, or a line break behind which it does not run on, ends a segment. -/
theorem finds_stop (reached : HasReached code before back stop front current (glyph :: rest))
    {line fuel : Nat} (stops : glyph.shown = ';' ∨
      (glyph.shown = '\n' ∧ ¬ runsOn (Glyph.shownText current.reverse) = true))
    (later : Finds runsOn code before stop line fuel 0 (front ++ (current.reverse ++ [glyph])) []
      rest) :
    Finds runsOn code before stop line (fuel + 1) 0 front current (glyph :: rest) := by
  obtain ⟨place, within⟩ := reached.inside
  have positive := Sized.positive glyph
  have ended : glyph.shown = ';' ∨ glyph.shown = '\n' := stops.imp_right And.left
  have noRun : ¬ (glyph.shown = '\n' ∧ runsOn (Glyph.shownText current.reverse) = true) := by
    rintro ⟨lineBreak, runs⟩
    rcases stops with semicolon | ⟨-, ends⟩
    · rw [lineBreak] at semicolon
      revert semicolon
      decide
    · exact ends runs
  -- A line break that ends the segment counts for the line of the next one.
  have counted : line + lineBreaks front + lineBreaks current.reverse +
      (if glyph.shown = '\n' then 1 else 0) =
        line + lineBreaks (front ++ (current.reverse ++ [glyph])) := by
    rw [lineBreaks_append, lineBreaks_append, lineBreaks_stop ended]
    omega
  rw [Finds, walk?_stop place (by omega) ended, if_neg noRun, collect_stop stops, counted]
  refine .cons (reached.isAt line false) ?_
  simpa [Finds] using later

/-- A block ends a segment, and the next one begins behind the block, if anything is there. -/
theorem finds_block (reached : HasReached code before back stop front current (glyph :: rest))
    {line fuel : Nat} (opens : glyph.shown = '{') (enough : 0 < fuel)
    (later : ∀ block, glyph :: rest = block ++ afterBlock (glyph :: rest) →
      Finds runsOn code before stop line fuel 0 (front ++ (current.reverse ++ block)) []
        (afterBlock (glyph :: rest))) :
    Finds runsOn code before stop line (fuel + 1) 0 front current (glyph :: rest) := by
  obtain ⟨place, within⟩ := reached.inside
  have positive := Sized.positive glyph
  have bracket : Glyph.bracketOf glyph.shown = .opens := by simp [Glyph.bracketOf, opens]
  rw [Finds, walk?_block place (by omega) opens, collect_block opens]
  refine .cons (reached.isAt line true) ?_
  rcases behindBlock_eq stop (before ++ front ++ current.reverse) reached.whole bracket
    reached.enclosed with ⟨nothing, behind⟩ | ⟨block, parts, behind⟩
  · -- Nothing is behind an open block, where the walk finds no stretch either.
    obtain ⟨fuel, rfl⟩ := Nat.exists_eq_add_one_of_ne_zero (Nat.ne_zero_of_lt enough)
    rw [behind, walk?, if_neg (by omega), if_neg (by omega), nothing, collect]
    exact ⟨[], [], [_], rfl, rfl, by simp [IsEmpty], .nil⟩
  · have lines : lineBreaks (glyph :: rest) =
        lineBreaks block + lineBreaks (afterBlock (glyph :: rest)) :=
      (congrArg lineBreaks parts).trans (lineBreaks_append _ _)
    have counted : line + lineBreaks front + lineBreaks current.reverse +
        (lineBreaks (glyph :: rest) - lineBreaks (afterBlock (glyph :: rest))) =
          line + lineBreaks (front ++ (current.reverse ++ block)) := by
      rw [lineBreaks_append, lineBreaks_append, lines]
      omega
    have found := later block parts
    rw [behind, counted]
    simpa [Finds] using found

end HasReached

/-- A part at the end of code that is shorter takes up fewer bytes. -/
theorem width_lt_of_isSuffix {left : List Glyph} (isSuffix : left <:+ rest)
    (shorter : left.length < rest.length) : width left < width rest := by
  obtain ⟨gone, rfl⟩ := isSuffix
  -- What is gone holds a character, so it takes up a byte at least.
  have filled := length_le_width gone
  rw [List.length_append] at shorter
  rw [width_append]
  omega

/-- A walk finds the segments of a body, except for empty ones at the end. -/
theorem walk?_width (runsOn : List Char → Bool) {before back current : List Glyph}
    (reached : HasReached code before back stop front current rest) (line depth fuel : Nat)
    (enough : width rest < fuel) :
    Finds runsOn code before stop line fuel depth front current rest := by
  induction length : rest.length using Nat.strong_induction_on
    generalizing front current rest depth fuel with
  | _ count ih =>
    obtain ⟨fuel, rfl⟩ := Nat.exists_eq_add_one_of_ne_zero (Nat.ne_zero_of_lt enough)
    match rest with
    | [] => exact reached.finds_end line depth fuel
    | glyph :: rest =>
      have positive := Sized.positive glyph
      have shorter : rest.length < count := by simp [← length]
      rw [width_cons] at enough
      -- The cases are those of the walk: a block, an end, a break that runs on, and all others.
      by_cases block : depth = 0 ∧ glyph.shown = '{'
      · obtain ⟨rfl, opens⟩ := block
        refine reached.finds_block opens (by omega) fun block parts => ?_
        have less := afterBlock_length (List.cons_ne_nil glyph rest)
        have narrower := width_lt_of_isSuffix ⟨block, parts.symm⟩ less
        rw [width_cons] at narrower
        exact ih _ (length ▸ less) (parts ▸ reached).goOn 0 fuel (by omega) rfl
      by_cases stops : depth = 0 ∧ (glyph.shown = ';' ∨ glyph.shown = '\n')
      · obtain ⟨rfl, stops⟩ := stops
        by_cases goesOn : glyph.shown = '\n' ∧ runsOn (Glyph.shownText current.reverse) = true
        · exact reached.finds_runsOn goesOn.1 goesOn.2
            (ih _ shorter reached.pass 0 fuel (by omega) rfl)
        · refine reached.finds_stop (stops.imp_right fun shown => ⟨shown, fun runs =>
            goesOn ⟨shown, runs⟩⟩) ?_
          have reached : HasReached code before back stop front current ([glyph] ++ rest) := reached
          exact ih _ shorter reached.goOn 0 fuel (by omega) rfl
      -- A character takes as many steps of the walk as it has bytes.
      · obtain ⟨left, same⟩ : ∃ left, fuel + 1 = left + Sized.size glyph :=
          ⟨fuel + 1 - Sized.size glyph, by omega⟩
        rw [same]
        exact reached.finds_on block stops (ih _ shorter reached.pass _ left (by omega) rfl)

/-- A walk through a body from its start to its end finds the segments of it. -/
theorem walk?_body (runsOn : List Char → Bool) {before inside back : List Glyph}
    (whole : code = before ++ (inside ++ back)) (line : Nat) (enclosed : IsEnclosed inside back)
    (fuel : Nat) (enough : width inside < fuel) :
    Locates code before line
      (walk? runsOn code (width before + width inside) fuel (width before) 0 (width before))
      (collect runsOn line 0 [] inside) := by
  -- At its start nothing has been passed, and the body is all that is left.
  have reached : HasReached code before back (width before + width inside) [] [] inside :=
    ⟨by simpa using whole, by simp, enclosed⟩
  have found : Finds runsOn code before (width before + width inside) line fuel 0 [] [] inside :=
    walk?_width runsOn reached line 0 fuel enough
  rw [Finds, List.append_nil, List.reverse_nil, List.append_nil] at found
  exact found

end Walk

end Segment

end IndexAudit
