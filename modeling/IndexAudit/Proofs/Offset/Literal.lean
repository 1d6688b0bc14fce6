import IndexAudit.Code.Literal
import IndexAudit.Proofs.Offset.Part
import IndexAudit.Proofs.Offset.Search
import Mathlib.Data.List.TakeWhile

/-!
String literals read at their byte offsets.

A scan goes from byte to byte and jumps behind each literal that it finds.
Everything that it cuts out begins and ends between two characters.
-/

namespace IndexAudit

namespace Literal

/-- Three quotes, between which a raw string stands. -/
def tripleQuote : List Char := ['"', '"', '"']

/--
The offset of the last three quotes of those that stand from an offset on.

It fails if the fuel does not suffice or if the text is cut inside a character.
-/
def lastQuotes? (code : List Glyph) : Nat → Nat → Option Nat
  | 0, _ => none
  | fuel + 1, last => do
    let behind ← from? (last + 3) code
    if ['"'].isPrefixOf (maskedBytes behind) then lastQuotes? code fuel (last + 1) else some last

/--
The values of the string literals between an offset and the end of a range.

It fails if the fuel does not suffice, if the code is cut inside a character, or if an offset lies
behind the end.
-/
def valuesFrom? (stop : Nat) (code : List Glyph) : Nat → Nat → Option (List (List Char))
  | 0, _ => none
  | fuel + 1, offset =>
    if offset < stop then do
      let byte ← (maskedBytes code)[offset]?
      if byte = '"' then
        let behind ← from? offset code
        if tripleQuote.isPrefixOf (maskedBytes behind) then
          let inside ← slice? (offset + 3) stop code
          match textIndex? tripleQuote (maskedBytes inside) with
          | none => some []
          | some close =>
            -- The first three quotes need not be the last ones of their run.
            let last ← lastQuotes? code (width code) (offset + 3 + close)
            let body ← slice? (offset + 3) last code
            let later ← valuesFrom? stop code fuel (last + 3)
            some (Glyph.text body :: later)
        else
          let inside ← slice? (offset + 1) stop code
          match textIndex? ['"'] (maskedBytes inside) with
          | none => some []
          | some close =>
            let body ← slice? (offset + 1) (offset + 1 + close) code
            let later ← valuesFrom? stop code fuel (offset + 1 + close + 1)
            some (unescape (Glyph.text body) :: later)
      else valuesFrom? stop code fuel (offset + 1)
    else some []

/-- The first three of a run of code are quotes if a search sees three quotes at its front. -/
theorem startsTriple_eq (code : List Glyph) :
    startsTriple code = tripleQuote.isPrefixOf (Glyph.shownText code) := by
  -- Fewer than three pieces have no three quotes, and of more only three are compared.
  match code with
  | [] => rfl
  | [_] => simp [startsTriple, tripleQuote, Glyph.shownText, List.isPrefixOf]
  | [_, _] => simp [startsTriple, tripleQuote, Glyph.shownText, List.isPrefixOf]
  | a :: b :: c :: rest =>
    have turned : ∀ glyph : Glyph, (glyph.shown == '"') = ('"' == glyph.shown) := fun glyph =>
      Bool.beq_comm
    simp [startsTriple, tripleQuote, Glyph.shownText, List.isPrefixOf, turned, Bool.and_assoc]

/-- A plain string ends at the first quote. -/
theorem plainBody_eq (code : List Glyph) :
    plainBody code = (textIndex? ['"'] (Glyph.shownText code)).map fun index =>
      (Glyph.text (code.take index), code.drop (index + 1)) := by
  induction code with
  | nil => rfl
  | cons glyph rest ih =>
    have shown : Glyph.shownText (glyph :: rest) = glyph.shown :: Glyph.shownText rest := rfl
    rw [plainBody, shown, textIndex?]
    -- A quote ends the string here, and otherwise the rest ends it one place on.
    by_cases quote : glyph.shown = '"'
    · simp [quote, Glyph.text]
    · simp [quote, Ne.symm quote, ih, Function.comp_def, Glyph.text]

/-- How many quotes code begins with. -/
def quotes (code : List Glyph) : Nat :=
  (code.takeWhile (·.shown == '"')).length

/-- A raw string ends in front of the last three of the quotes at the first three in a row. -/
theorem rawBody_eq (code : List Glyph) :
    rawBody code = (textIndex? tripleQuote (Glyph.shownText code)).map fun index =>
      let more := quotes (code.drop (index + 3))
      (Glyph.text (code.take (index + more)), code.drop (index + more + 3)) := by
  -- By the code in front of the first three quotes; behind them only the run of quotes counts.
  induction code with
  | nil => rfl
  | cons glyph rest ih =>
    have shown : Glyph.shownText (glyph :: rest) = glyph.shown :: Glyph.shownText rest := rfl
    rw [rawBody, shown, textIndex?, ← shown, ← startsTriple_eq]
    cases triple : startsTriple (glyph :: rest) with
    | false => simp [ih, Function.comp_def, Glyph.text, Nat.add_right_comm _ 1]
    | true =>
      rcases rest with - | ⟨second, - | ⟨third, after⟩⟩
      · simp [startsTriple] at triple
      · simp [startsTriple] at triple
      -- With a fourth quote the three begin one later, and so does the end of the string.
      cases again : startsTriple (second :: third :: after) with
      | false =>
        have none : quotes after = 0 := by
          cases after with
          | nil => rfl
          | cons fourth after =>
            simp only [startsTriple, Bool.and_eq_true] at triple
            simp [startsTriple, triple] at again
            simp [quotes, again]
        simp [none, Glyph.text]
      | true =>
        cases after with
        | nil => simp [startsTriple] at again
        | cons fourth after =>
          have quote : fourth.shown = '"' := by
            simp only [startsTriple, Bool.and_eq_true, beq_iff_eq] at again
            exact again.2
          have one : quotes (fourth :: after) = quotes after + 1 := by simp [quotes, quote]
          have found : textIndex? tripleQuote (Glyph.shownText (second :: third :: fourth :: after)) =
              some 0 := by
            rw [startsTriple_eq] at again
            rw [Glyph.shownText, List.map_cons] at again ⊢
            rw [textIndex?, if_pos again]
          rw [ih, found]
          simp [one, Glyph.text]

/-- The first three quotes in a row that stand inside of code, with all quotes that follow them. -/
structure ClosingQuotes (inside opening closing after : List Glyph) : Prop where
  code : inside = opening ++ closing ++ after
  quotes : ∀ glyph ∈ closing, glyph.shown = '"'
  triple : 3 ≤ closing.length
  apart : ∀ glyph ∈ after.head?, glyph.shown ≠ '"'
  found : textIndex? tripleQuote (maskedBytes inside) = some (width opening)
  body : rawBody inside = some (Glyph.text (opening ++ closing.take (closing.length - 3)), after)

/-- Code that begins with three quotes begins with a run of quotes, which no other one follows. -/
theorem exists_quotes {code : List Glyph} (triple : startsTriple code = true) :
    ∃ closing after, code = closing ++ after ∧ (∀ glyph ∈ closing, glyph.shown = '"') ∧
      (∀ glyph ∈ after.head?, glyph.shown ≠ '"') ∧
      closing.length = quotes (code.drop 3) + 3 := by
  refine ⟨code.takeWhile (·.shown == '"'), code.dropWhile (·.shown == '"'),
    List.takeWhile_append_dropWhile.symm, ?_, ?_, ?_⟩
  · intro glyph listed
    simpa using List.mem_takeWhile_imp listed
  · intro glyph listed
    have stops := List.head?_dropWhile_not (·.shown == '"') code
    rw [Option.mem_def.mp listed] at stops
    simpa using stops
  -- Three quotes begin the run, so its first three elements are known.
  · rcases code with - | ⟨first, - | ⟨second, - | ⟨third, tail⟩⟩⟩
    · simp [startsTriple] at triple
    · simp [startsTriple] at triple
    · simp [startsTriple] at triple
    · simp only [startsTriple, Bool.and_eq_true, beq_iff_eq] at triple
      simp [quotes, triple]

/-- A search for three quotes finds where a raw string is closed, or that none closes it. -/
theorem rawBody_cases (inside : List Glyph) :
    (textIndex? tripleQuote (maskedBytes inside) = none ∧ rawBody inside = none) ∨
      ∃ opening closing after, ClosingQuotes inside opening closing after := by
  have bytes : textIndex? tripleQuote (maskedBytes inside) = _ :=
    textIndex?_bytes '"' ['"', '"'] (by decide) inside
  cases found : textIndex? tripleQuote (Glyph.shownText inside) with
  | none =>
    left
    exact ⟨by rw [bytes]; simp [tripleQuote] at found; simp [found], by rw [rawBody_eq, found]; rfl⟩
  | some index =>
    right
    have triple : startsTriple (inside.drop index) = true := by
      rw [startsTriple_eq, List.isPrefixOf_iff_prefix, Glyph.shownText, List.map_drop]
      exact isPrefix_of_textIndex? found
    -- All quotes that stand there close the string, and only the last three are not part of it.
    obtain ⟨closing, after, parts, areQuotes, apart, length⟩ := exists_quotes triple
    rw [List.drop_drop] at length
    have long : 3 ≤ closing.length := by omega
    have more : quotes (inside.drop (index + 3)) = closing.length - 3 := by omega
    have body : inside.take (index + (closing.length - 3)) =
        inside.take index ++ closing.take (closing.length - 3) := by
      rw [List.take_add, parts, List.take_append_of_le_length (Nat.sub_le _ _)]
    have behind : inside.drop (index + (closing.length - 3) + 3) = after := by
      rw [Nat.add_assoc, Nat.sub_add_cancel long, ← List.drop_drop, parts, List.drop_left]
    refine ⟨inside.take index, closing, after, ?_, areQuotes, long, apart, ?_, ?_⟩
    · rw [List.append_assoc, ← parts, List.take_append_drop]
    · rw [bytes]
      exact congrArg (Option.map _) found
    · rw [rawBody_eq, found, Option.map_some]
      simp only [more, body, behind]

/-- The last three of several quotes stand at the offset of the quotes behind the first three. -/
theorem lastQuotes?_eq (front quotes : List Glyph) {back : List Glyph}
    (all : ∀ glyph ∈ quotes, glyph.shown = '"') (apart : ∀ glyph ∈ back.head?, glyph.shown ≠ '"')
    (fuel last : Nat) (place : last + 3 = width front) (enough : quotes.length < fuel) :
    lastQuotes? (front ++ quotes ++ back) fuel last = some (last + quotes.length) := by
  -- By the quotes that are left: each one moves the last three on by one byte.
  induction quotes generalizing front fuel last with
  | nil =>
    obtain ⟨fuel, rfl⟩ := Nat.exists_eq_add_one_of_ne_zero (Nat.ne_zero_of_lt enough)
    have behind : ['"'].isPrefixOf (maskedBytes back) = false := by
      rw [isPrefixOf_maskedBytes (by decide)]
      cases back with
      | nil => rfl
      | cons glyph back =>
        have other : glyph.shown ≠ '"' := apart glyph rfl
        simp [Glyph.shownText, List.isPrefixOf, Ne.symm other]
    rw [List.append_nil, lastQuotes?, place, from?_width, Option.bind_eq_bind, Option.bind_some,
      behind]
    rfl
  | cons glyph quotes ih =>
    obtain ⟨fuel, rfl⟩ := Nat.exists_eq_add_one_of_ne_zero (Nat.ne_zero_of_lt enough)
    obtain ⟨here, later⟩ := List.forall_mem_cons.mp all
    have one : Sized.size glyph = 1 := size_of_shown (by decide) (by decide) here
    have behind : ['"'].isPrefixOf (maskedBytes (glyph :: (quotes ++ back))) = true := by
      rw [isPrefixOf_maskedBytes (by decide)]
      simp [Glyph.shownText, List.isPrefixOf, here]
    have moved : last + 1 + 3 = width (front ++ [glyph]) := by
      rw [width_append, ← place, width_cons, one]
      rfl
    have next := ih (front ++ [glyph]) later fuel (last + 1) moved (Nat.lt_of_succ_lt_succ enough)
    simp only [List.append_assoc, List.cons_append, List.nil_append] at next ⊢
    rw [lastQuotes?, place, from?_width, Option.bind_eq_bind, Option.bind_some, if_pos behind, next,
      List.length_cons]
    congr 1
    omega

/-- What stands behind a range that no quote follows begins with three quotes only if the range does. -/
theorem isPrefixOf_behind (part : List Glyph) {back : List Glyph}
    (apart : ∀ glyph ∈ back.head?, glyph.shown ≠ '"') :
    tripleQuote.isPrefixOf (maskedBytes (part ++ back)) = startsTriple part := by
  rw [isPrefixOf_maskedBytes (by decide), ← startsTriple_eq]
  have other : ∀ glyph rest, back = glyph :: rest → (glyph.shown == '"') = false := by
    rintro glyph rest rfl
    exact beq_false_of_ne (apart glyph rfl)
  -- A shorter range would need a quote from behind it.
  match part with
  | _ :: _ :: _ :: _ => rfl
  | [] =>
    match back with
    | [] => rfl
    | [_] => rfl
    | [_, _] => rfl
    | _ :: _ :: _ :: _ => simp [startsTriple, other _ _ rfl]
  | [_] =>
    match back with
    | [] => rfl
    | [_] => rfl
    | _ :: _ :: _ => simp [startsTriple, other _ _ rfl]
  | [_, _] =>
    match back with
    | [] => rfl
    | _ :: _ => simp [startsTriple, other _ _ rfl]

/-- A scan passes a character that is no quote. -/
theorem valuesFrom?_skip {glyph : Glyph} (other : glyph.shown ≠ '"') (front rest back : List Glyph)
    (fuel : Nat) :
    let stop := width front + width (glyph :: rest)
    let code := front ++ (glyph :: rest) ++ back
    valuesFrom? stop code (fuel + Sized.size glyph) (width front) =
      valuesFrom? stop code fuel (width (front ++ [glyph])) := by
  intro stop code
  rw [width_append, width_cons, width_nil, Nat.add_zero]
  -- A glyph may take several bytes, none of which is a quote.
  refine loop_skip _ _ _ fun place within fuel => ?_
  have inside : width front + place < stop := by
    simp only [stop, width_cons]
    omega
  obtain ⟨byte, found, same⟩ := exists_byte front (rest ++ back) within
  have read : (maskedBytes code)[width front + place]? = some byte := by
    rw [← found]
    simp [code]
  have noQuote : byte ≠ '"' := fun quote => other ((same '"' (by decide) (by decide)).mp quote)
  rw [valuesFrom?, if_pos inside, read, Option.bind_eq_bind, Option.bind_some, if_neg noQuote]

/-- A scan that stands in front of a quote reads the quote, and whether two more follow it. -/
theorem valuesFrom?_quote {glyph : Glyph} (quote : glyph.shown = '"') (front rest : List Glyph)
    {back : List Glyph} (apart : ∀ glyph ∈ back.head?, glyph.shown ≠ '"') :
    let code := front ++ (glyph :: rest) ++ back
    (maskedBytes code)[width front]? = some '"' ∧
      ∃ behind, from? (width front) code = some behind ∧
        tripleQuote.isPrefixOf (maskedBytes behind) = startsTriple (glyph :: rest) := by
  intro code
  -- The byte in front of the scan is the first one of the glyph.
  have place : code = front ++ glyph :: (rest ++ back) := by simp [code]
  obtain ⟨byte, found, same⟩ := exists_firstByte front glyph (rest ++ back)
  refine ⟨?_, glyph :: (rest ++ back), ?_, isPrefixOf_behind (glyph :: rest) apart⟩
  · rw [place, found, (same '"' (by decide) (by decide)).mpr quote]
  · rw [place, from?_width]

/-- A scan reads the plain string behind a quote and goes on behind it. -/
theorem valuesFrom?_plain {glyph : Glyph} {rest back : List Glyph} (quote : glyph.shown = '"')
    (single : startsTriple (glyph :: rest) = false) (apart : ∀ glyph ∈ back.head?, glyph.shown ≠ '"')
    (front : List Glyph) (fuel : Nat) :
    let stop := width front + width (glyph :: rest)
    let code := front ++ (glyph :: rest) ++ back
    (plainBody rest = none ∧ valuesFrom? stop code (fuel + 1) (width front) = some []) ∨
      ∃ body closing after, rest = body ++ closing :: after ∧
        plainBody rest = some (Glyph.text body, after) ∧
        valuesFrom? stop code (fuel + 1) (width front) =
          (valuesFrom? stop code fuel (width (front ++ glyph :: body ++ [closing]))).map
            (unescape (Glyph.text body) :: ·) := by
  intro stop code
  have one : Sized.size glyph = 1 := size_of_shown (by decide) (by decide) quote
  obtain ⟨byte, behind, cut, triple⟩ := valuesFrom?_quote quote front rest apart
  have start : width front + 1 = width (front ++ [glyph]) := by simp [one]
  have inside : slice? (width front + 1) stop code = some rest := by
    have whole := slice?_width (front ++ [glyph]) rest back
    simpa [stop, code, one, Nat.add_assoc] using whole
  have bytes := textIndex?_bytes '"' [] (by decide) rest
  have within : width front < stop := by
    simp only [stop, width_cons, one]
    omega
  rw [plainBody_eq, valuesFrom?, if_pos within, byte, Option.bind_eq_bind, Option.bind_some,
    if_pos rfl, cut, Option.bind_eq_bind, Option.bind_some, triple, single, inside,
    Option.bind_eq_bind]
  simp only [Bool.false_eq_true, if_false, Option.bind_some, bytes]
  -- The quote that closes the string is the next one, if any is left in the range.
  cases found : textIndex? ['"'] (Glyph.shownText rest) with
  | none => exact .inl ⟨rfl, rfl⟩
  | some index =>
    right
    have stands := isPrefix_of_textIndex? found
    obtain ⟨closing, after, closes⟩ : ∃ closing after, rest.drop index = closing :: after := by
      match form : rest.drop index, stands with
      | [], stands => simp [Glyph.shownText, ← List.map_drop, form] at stands
      | closing :: after, _ => exact ⟨closing, after, rfl⟩
    have ends : closing.shown = '"' := by
      rw [Glyph.shownText, ← List.map_drop, closes, List.map_cons, List.cons_prefix_cons] at stands
      exact stands.1.symm
    have whole : rest = rest.take index ++ closing :: after := by
      rw [← closes, List.take_append_drop]
    have behindClosing : rest.drop (index + 1) = after := by
      rw [← List.drop_drop, closes]
      rfl
    simp only [Option.map_some, behindClosing]
    generalize rest.take index = body at whole ⊢
    have cutOut : slice? (width front + 1) (width front + 1 + width body) code = some body := by
      have part := slice?_width (front ++ [glyph]) body (closing :: after ++ back)
      simpa [code, whole, one, Nat.add_assoc] using part
    have next : width front + 1 + width body + 1 = width (front ++ glyph :: body ++ [closing]) := by
      have last : Sized.size closing = 1 := size_of_shown (by decide) (by decide) ends
      simp [one, last, Nat.add_assoc]
    refine ⟨body, closing, after, whole, rfl, ?_⟩
    rw [cutOut, Option.bind_some, next, Option.map_eq_bind]
    rfl

namespace ClosingQuotes

variable {inside opening closing after : List Glyph}
  (closed : ClosingQuotes inside opening closing after)
include closed

/-- The first quotes of those that close a string take up a byte each. -/
theorem width_take {count : Nat} (within : count ≤ closing.length) :
    width (closing.take count) = count := by
  -- Each of them is seen as a quote, which takes up one byte.
  rw [width_of_shown (by decide) (by decide) fun glyph listed =>
    closed.quotes glyph (List.mem_of_mem_take listed), List.length_take, Nat.min_eq_left within]

/-- The quotes that close a string take up a byte each. -/
theorem width_closing : width closing = closing.length :=
  width_of_shown (by decide) (by decide) closed.quotes

/-- The last three of the quotes that close a string are found from the first three on. -/
theorem lastQuotes?_eq (front : List Glyph) {back : List Glyph}
    (apart : ∀ glyph ∈ back.head?, glyph.shown ≠ '"') :
    lastQuotes? (front ++ inside ++ back) (width (front ++ inside ++ back))
        (width front + width opening) =
      some (width front + width opening + (closing.length - 3)) := by
  have long := closed.triple
  -- The run of quotes is cut behind its first three, where the search begins.
  have place : front ++ inside ++ back =
      (front ++ opening ++ closing.take 3) ++ closing.drop 3 ++ (after ++ back) := by
    rw [closed.code]
    simp
  -- The run ends inside the part or with it, and then what is behind begins with no quote.
  have noQuote : ∀ glyph ∈ (after ++ back).head?, glyph.shown ≠ '"' := by
    have own := closed.apart
    cases after with
    | nil => exact apart
    | cons glyph after => exact own
  have start : width front + width opening + 3 = width (front ++ opening ++ closing.take 3) := by
    rw [width_append, width_append, closed.width_take long]
  have enough : (closing.drop 3).length < width (front ++ inside ++ back) := by
    rw [closed.code, List.length_drop]
    simp only [width_append, closed.width_closing]
    omega
  rw [place, Literal.lastQuotes?_eq _ _ (fun glyph listed =>
    closed.quotes glyph (List.mem_of_mem_drop listed)) noQuote _ _ start (place ▸ enough),
    List.length_drop]

/-- What stands in front of the last three quotes is cut out between their offsets. -/
theorem slice?_body (front back : List Glyph) :
    slice? (width front) (width front + width opening + (closing.length - 3))
        (front ++ inside ++ back) = some (opening ++ closing.take (closing.length - 3)) := by
  -- The last three quotes belong to what stands behind the slice.
  have place : front ++ inside ++ back = front ++ (opening ++ closing.take (closing.length - 3)) ++
      (closing.drop (closing.length - 3) ++ (after ++ back)) := by
    rw [closed.code]
    simp only [List.append_assoc]
    rw [← List.append_assoc (closing.take _), List.take_append_drop]
  have part := slice?_width front (opening ++ closing.take (closing.length - 3))
    (closing.drop (closing.length - 3) ++ (after ++ back))
  rwa [← place, width_append, closed.width_take (Nat.sub_le _ _), ← Nat.add_assoc] at part

end ClosingQuotes

/-- A scan reads the raw string behind three quotes and goes on behind it. -/
theorem valuesFrom?_raw {first second third : Glyph} {inside back : List Glyph}
    (triple : startsTriple (first :: second :: third :: inside) = true)
    (apart : ∀ glyph ∈ back.head?, glyph.shown ≠ '"') (front : List Glyph) (fuel : Nat) :
    let stop := width front + width (first :: second :: third :: inside)
    let code := front ++ (first :: second :: third :: inside) ++ back
    (rawBody inside = none ∧ valuesFrom? stop code (fuel + 1) (width front) = some []) ∨
      ∃ opening closing after, ClosingQuotes inside opening closing after ∧
        valuesFrom? stop code (fuel + 1) (width front) =
          (valuesFrom? stop code fuel
            (width (front ++ first :: second :: third :: (opening ++ closing)))).map
            (Glyph.text (opening ++ closing.take (closing.length - 3)) :: ·) := by
  intro stop code
  have quotes : ∀ glyph ∈ [first, second, third], glyph.shown = '"' := by
    simp only [startsTriple, Bool.and_eq_true, beq_iff_eq] at triple
    simp [triple]
  have three : width [first, second, third] = 3 := width_of_shown (by decide) (by decide) quotes
  obtain ⟨byte, behind, cut, prefixed⟩ :=
    valuesFrom?_quote (quotes first List.mem_cons_self) front (second :: third :: inside) apart
  -- The quotes that open the string stand in front of it like any other code.
  have start : width (front ++ [first, second, third]) = width front + 3 := by
    rw [width_append, three]
  have place : front ++ [first, second, third] ++ inside ++ back = code := by simp [code]
  have ends : stop = width (front ++ [first, second, third]) + width inside := by
    rw [← width_append, List.append_assoc, width_append front]
    rfl
  have within : width front < stop := by omega
  have inner : slice? (width front + 3) stop code = some inside := by
    rw [ends, ← start, ← place]
    exact slice?_width _ _ _
  rw [valuesFrom?, if_pos within, byte, Option.bind_eq_bind, Option.bind_some, if_pos rfl, cut,
    Option.bind_eq_bind, Option.bind_some, prefixed, triple, inner, Option.bind_eq_bind]
  simp only [if_true, Option.bind_some]
  rcases rawBody_cases inside with ⟨missing, none⟩ | ⟨opening, closing, after, closed⟩
  · exact .inl ⟨none, by rw [missing]⟩
  · refine .inr ⟨opening, closing, after, closed, ?_⟩
    have last := closed.lastQuotes?_eq (front ++ [first, second, third]) apart
    have body := closed.slice?_body (front ++ [first, second, third]) back
    rw [place, start] at last body
    have next : width front + 3 + width opening + (closing.length - 3) + 3 =
        width (front ++ first :: second :: third :: (opening ++ closing)) := by
      have long := closed.triple
      have whole : front ++ first :: second :: third :: (opening ++ closing) =
          front ++ [first, second, third] ++ opening ++ closing := by simp
      rw [whole, width_append, width_append, start, closed.width_closing]
      omega
    simp only [closed.found]
    rw [last, Option.bind_some, body, Option.bind_some, next, Option.map_eq_bind]
    rfl

/-- Behind a quote that no two others follow, a plain string is read. -/
theorem values_plain {glyph : Glyph} {rest : List Glyph} (quote : glyph.shown = '"')
    (single : startsTriple (glyph :: rest) = false) :
    values (glyph :: rest) = match plainBody rest with
      | none => []
      | some (body, after) => unescape body :: values after := by
  -- The quote is one, so the second branch is taken.
  rw [values, if_neg (not_not_intro quote), if_neg (by simp [single])]
  split
  next none => simp only [none]
  next found => simp only [found]

/-- Behind three quotes, a raw string is read. -/
theorem values_raw {glyph : Glyph} {rest : List Glyph} (triple : startsTriple (glyph :: rest) = true) :
    values (glyph :: rest) = match rawBody (rest.drop 2) with
      | none => []
      | some (body, after) => body :: values after := by
  -- Three quotes begin with one.
  have quote : glyph.shown = '"' := by
    match rest, triple with
    | _ :: _ :: _, triple =>
      simp only [startsTriple, Bool.and_eq_true, beq_iff_eq] at triple
      exact triple.1.1
  rw [values, if_neg (not_not_intro quote), if_pos triple]
  split
  next none => simp only [none]
  next found => simp only [found]

/-- A scan finds the literals of a range of code, behind which no quote stands. -/
theorem valuesFrom?_width {part back : List Glyph} (apart : ∀ glyph ∈ back.head?, glyph.shown ≠ '"')
    (front : List Glyph) (fuel : Nat) (enough : width part < fuel) :
    valuesFrom? (width front + width part) (front ++ part ++ back) fuel (width front) =
      some (values part) := by
  -- By the length of the range, since a string takes any number of glyphs off its front.
  induction size : part.length using Nat.strong_induction_on generalizing part front fuel with
  | _ size ih =>
    cases part with
    | nil =>
      obtain ⟨fuel, rfl⟩ := Nat.exists_eq_add_one_of_ne_zero (Nat.ne_zero_of_lt enough)
      rw [valuesFrom?, if_neg (by simp), values]
    | cons glyph rest =>
      by_cases quote : glyph.shown = '"'
      case neg =>
        obtain ⟨left, rfl⟩ : ∃ left, fuel = left + Sized.size glyph :=
          ⟨fuel - Sized.size glyph, by rw [width_cons] at enough; omega⟩
        have next := ih rest.length (by simp [← size]) (front ++ [glyph]) left
          (by rw [width_cons] at enough; omega) rfl
        rw [valuesFrom?_skip quote, values, if_pos quote]
        simpa [Nat.add_assoc] using next
      case pos =>
        obtain ⟨left, rfl⟩ := Nat.exists_eq_add_one_of_ne_zero (Nat.ne_zero_of_lt enough)
        cases triple : startsTriple (glyph :: rest) with
        | false =>
          rw [values_plain quote triple]
          rcases valuesFrom?_plain quote triple apart front left with
            ⟨none, ended⟩ | ⟨body, closing, after, rfl, plain, goesOn⟩
          · rw [ended, none]
          · have later := ih after.length (by simp [← size]; omega)
              (front ++ glyph :: body ++ [closing]) left
              (by
                have positive := Sized.positive glyph
                simp only [width_cons, width_append] at enough
                omega) rfl
            rw [goesOn, plain]
            simp only [List.append_assoc, List.cons_append, List.nil_append, width_append, width_cons,
              width_nil, Nat.add_zero, ← Nat.add_assoc] at later ⊢
            rw [later]
            rfl
        | true =>
          rcases rest with - | ⟨second, - | ⟨third, inside⟩⟩
          · simp [startsTriple] at triple
          · simp [startsTriple] at triple
          rw [values_raw triple]
          rcases valuesFrom?_raw triple apart front left with
            ⟨none, ended⟩ | ⟨opening, closing, after, closed, goesOn⟩
          · rw [ended, List.drop_succ_cons, List.drop_succ_cons, List.drop_zero, none]
          · have place := closed.code
            subst place
            have later := ih after.length (by simp [← size]; omega)
              (front ++ glyph :: second :: third :: (opening ++ closing)) left
              (by
                have positive := Sized.positive glyph
                simp only [width_cons, width_append] at enough
                omega) rfl
            rw [goesOn, List.drop_succ_cons, List.drop_succ_cons, List.drop_zero, closed.body]
            simp only [List.append_assoc, List.cons_append, width_append, width_cons,
              ← Nat.add_assoc] at later ⊢
            rw [later]
            rfl

end Literal

end IndexAudit
