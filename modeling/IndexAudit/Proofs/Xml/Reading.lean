import IndexAudit.Proofs.Text.Blank
import IndexAudit.Proofs.Text.Search
import IndexAudit.Xml.Mark

/-!
How the marks of a document are read, one piece of markup after another.

What a piece of markup comes to does not hang on what stands behind it. So the marks of a text are
those of its pieces, and each piece of markup ends in an angle bracket.
-/

namespace IndexAudit

namespace XmlMark

/-- A reader takes a part off the front of whatever begins with it, up to an angle bracket. -/
structure Takes {α : Type} (read : List Char → Option (α × List Char)) (part : List Char)
    (value : α) : Prop where
  reads : ∀ more, read (part ++ more) = some (value, more)
  ends : part.getLast? = some '>'

section Markup

variable {text content after : List Char}

/-- A reader that leaves out a prefix takes it as well. -/
theorem Takes.behind {α β : Type} {read : List Char → Option (α × List Char)}
    {outer : List Char → Option (β × List Char)} {part start : List Char} {value : α} {f : α → β}
    (takes : Takes read part value)
    (same : ∀ more, outer (start ++ (part ++ more)) =
      (read (part ++ more)).map fun (value, after) => (f value, after)) :
    Takes outer (start ++ part) (f value) where
  -- What is behind the prefix is what the inner reader leaves.
  reads more := by rw [List.append_assoc, same, takes.reads]; rfl
  ends := by rw [List.getLast?_append, takes.ends]; rfl

/-- One more character in front is part of the content. -/
theorem takes_cons {inner outer : List Char → Option (List Char × List Char)} {c : Char}
    {rest : List Char}
    (found : ((inner rest).map fun (content, after) => (c :: content, after)) =
      some (content, after))
    (ih : ∀ {content}, inner rest = some (content, after) →
      rest = content ++ ['>'] ++ after ∧ Takes inner (content ++ ['>']) content)
    (same : ∀ more, outer (c :: more) =
      (inner more).map fun (content, after) => (c :: content, after)) :
    c :: rest = content ++ ['>'] ++ after ∧ Takes outer (content ++ ['>']) content := by
  obtain ⟨⟨less, behind⟩, later, both⟩ := Option.map_eq_some_iff.mp found
  obtain ⟨rfl, rfl⟩ := Prod.mk.inj both
  obtain ⟨rfl, takes⟩ := ih later
  -- One more character in front changes nothing of how the rest is taken.
  have longer : Takes outer ([c] ++ (less ++ ['>'])) (c :: less) :=
    takes.behind (f := (c :: ·)) fun _ => same _
  exact ⟨rfl, longer⟩

/-- A tag is read up to its angle bracket, whatever follows. -/
theorem takes_readTag? {quote : Option Char} (found : readTag? quote text = some (content, after)) :
    text = content ++ ['>'] ++ after ∧ Takes (readTag? quote) (content ++ ['>']) content := by
  induction text generalizing quote content with
  | nil => cases found
  | cons c rest ih =>
    -- In quotes an angle bracket is content, and only the same quote leads out again.
    cases quote with
    | some mark =>
      rw [readTag?] at found
      exact takes_cons found ih fun more => by rw [readTag?]
    | none =>
      rw [readTag?] at found
      by_cases closes : c = '>'
      · rw [if_pos closes] at found
        obtain ⟨rfl, rfl⟩ := Prod.mk.inj (Option.some.inj found)
        subst closes
        exact ⟨rfl, fun more => by simp [readTag?], rfl⟩
      · rw [if_neg closes] at found
        exact takes_cons found ih fun more => by rw [readTag?]; simp only [if_neg closes]

/-- Brackets are read up to the one that closes them all, whatever follows. -/
theorem takes_readBalanced? {depth : Nat}
    (found : readBalanced? depth text = some (content, after)) :
    text = content ++ ['>'] ++ after ∧ Takes (readBalanced? depth) (content ++ ['>']) content := by
  induction text generalizing depth content with
  | nil => cases found
  | cons c rest ih =>
    rw [readBalanced?] at found
    by_cases opens : c = '<'
    · simp only [if_pos opens] at found
      exact takes_cons found ih fun more => by rw [readBalanced?]; simp only [if_pos opens]
    · by_cases closes : c = '>'
      -- Only the bracket that closes them all is left out of the content.
      · by_cases last : depth = 0
        · simp only [if_neg opens, if_pos closes, if_pos last] at found
          obtain ⟨rfl, rfl⟩ := Prod.mk.inj (Option.some.inj found)
          subst closes last
          exact ⟨rfl, fun more => by simp [readBalanced?], rfl⟩
        · simp only [if_neg opens, if_pos closes, if_neg last] at found
          exact takes_cons found ih fun more => by
            rw [readBalanced?]
            simp only [if_neg opens, if_pos closes, if_neg last]
      · simp only [if_neg opens, if_neg closes] at found
        exact takes_cons found ih fun more => by
          rw [readBalanced?]
          simp only [if_neg opens, if_neg closes]

/-- Text up to a pattern that ends in an angle bracket is read, whatever follows. -/
theorem takes_splitAtText? {pattern : List Char} (ends : pattern.getLast? = some '>')
    (found : splitAtText? pattern text = some (content, after)) :
    ∃ part, text = part ++ after ∧ Takes (splitAtText? pattern) part content := by
  -- The pattern is found at the same place with anything behind it.
  have filled : pattern ≠ [] := by
    rintro rfl
    cases ends
  obtain ⟨whole, first⟩ := (splitAtText?_eq_some_iff filled).mp found
  refine ⟨content ++ pattern, whole.symm, fun more => ?_, ?_⟩
  · exact (splitAtText?_eq_some_iff filled).mpr ⟨rfl, first⟩
  · rw [List.getLast?_append, ends]
    rfl

/-- A document type begins with a letter, and is left out whatever follows. -/
theorem takes_skipDocumentType? (found : skipDocumentType? text = some after) :
    ∃ c part, text = c :: part ++ after ∧ c.toUpper = 'D' ∧ (c :: part).getLast? = some '>' ∧
      ∀ more, skipDocumentType? (c :: part ++ more) = some more := by
  rw [skipDocumentType?, Option.bind_eq_bind, Option.bind_eq_some_iff] at found
  obtain ⟨⟨content, behind⟩, balanced, found⟩ := found
  obtain ⟨whole, takes⟩ := takes_readBalanced? balanced
  simp only at found
  split at found
  · next declares =>
    obtain rfl := Option.some.inj found
    cases content with
    | nil => exact absurd declares.1 (by decide)
    | cons c content =>
      refine ⟨c, content ++ ['>'], whole, ?_, takes.ends, fun more => ?_⟩
      -- Its first letter is what tells it from a comment and from literal text.
      · have word := congrArg List.head? declares.1
        simpa [show "DOCTYPE".length = 7 from rfl] using word
      · have read := takes.reads more
        rw [List.cons_append] at read
        rw [skipDocumentType?, read]
        exact if_pos declares
  · cases found

/-- An instruction is left out, whatever follows. -/
theorem takes_skipInstruction? (found : skipInstruction? text = some after) :
    ∃ part, text = part ++ after ∧ part.getLast? = some '>' ∧
      ∀ more, skipInstruction? (part ++ more) = some more := by
  rw [skipInstruction?] at found
  split at found
  · cases found
  · next goes =>
    obtain ⟨⟨body, behind⟩, first, rfl⟩ := Option.map_eq_some_iff.mp found
    obtain ⟨part, rfl, takes⟩ := takes_splitAtText? rfl first
    refine ⟨part, rfl, takes.ends, fun more => ?_⟩
    -- The first character is looked at on its own, and stays the same.
    have same : (part ++ more).head? = (part ++ behind).head? := by
      cases part with
      | nil => cases takes.ends
      | cons c part => rfl
    rw [skipInstruction?, same, if_neg goes, takes.reads]
    rfl

/-- What an exclamation mark begins is read, whatever follows. -/
theorem takes_readBang? {mark : Option XmlMark} (found : readBang? text = some (mark, after)) :
    ∃ part, text = part ++ after ∧ Takes readBang? part mark := by
  rw [readBang?] at found
  split at found
  -- A comment goes up to its two dashes and the bracket behind them.
  · next comment dashes =>
    obtain rfl := afterStart?_eq_some_iff.mp dashes
    obtain ⟨⟨body, behind⟩, first, same⟩ := Option.map_eq_some_iff.mp found
    obtain ⟨rfl, rfl⟩ := Prod.mk.inj same
    obtain ⟨part, rfl, takes⟩ := takes_splitAtText? rfl first
    refine ⟨_, (List.append_assoc ..).symm, takes.behind (f := fun _ => none) fun more => ?_⟩
    rw [readBang?, afterStart?_append]
  · next noDashes =>
    split at found
    -- Literal text goes up to its two brackets and the angle bracket behind them.
    · next rest opens =>
      obtain rfl := afterStart?_eq_some_iff.mp opens
      obtain ⟨⟨body, behind⟩, first, same⟩ := Option.map_eq_some_iff.mp found
      obtain ⟨rfl, rfl⟩ := Prod.mk.inj same
      obtain ⟨part, rfl, takes⟩ := takes_splitAtText? rfl first
      refine ⟨_, (List.append_assoc ..).symm,
        takes.behind (f := fun inside : List Char => some (XmlMark.literal inside)) fun more => ?_⟩
      have noComment : afterStart? "--".toList ("[CDATA[".toList ++ (part ++ more)) = none := rfl
      rw [readBang?, noComment, afterStart?_append]
    -- What is neither of the two has to be a document type.
    · next noData =>
      obtain ⟨behind, first, same⟩ := Option.map_eq_some_iff.mp found
      obtain ⟨rfl, rfl⟩ := Prod.mk.inj same
      obtain ⟨c, part, rfl, letter, ends, skips⟩ := takes_skipDocumentType? first
      refine ⟨c :: part, rfl, fun more => ?_, ends⟩
      -- A letter begins neither a comment nor literal text.
      have noDash : c ≠ '-' := by
        rintro rfl
        exact absurd letter (by decide)
      have noBracket : c ≠ '[' := by
        rintro rfl
        exact absurd letter (by decide)
      have comment : afterStart? "--".toList (c :: part ++ more) = none := if_neg noDash.symm
      have data : afterStart? "[CDATA[".toList (c :: part ++ more) = none := if_neg noBracket.symm
      rw [readBang?, comment, data, skips]
      rfl

/-- Behind an angle bracket, what none of three characters begins is a tag. -/
theorem read?_tag {c : Char} {rest : List Char} (noBang : c ≠ '!') (noSlash : c ≠ '/')
    (noMark : c ≠ '?') :
    read? (c :: rest) = (readTag? none (c :: rest)).map fun (content, after) =>
      (some (ofContent content), after) := by
  -- The other branches each ask for one of the three characters.
  rw [read?.eq_def]
  split <;> simp_all

/-- What an angle bracket begins is read, whatever follows. -/
theorem takes_read? {mark : Option XmlMark} (found : read? text = some (mark, after)) :
    ∃ part, text = part ++ after ∧ Takes read? part mark := by
  rw [read?.eq_def] at found
  split at found
  · cases found
  · next rest =>
    obtain ⟨part, rfl, takes⟩ := takes_readBang? found
    refine ⟨['!'] ++ part, rfl, takes.behind (f := id) fun more => ?_⟩
    exact Option.map_id'.symm
  · next rest =>
    obtain ⟨⟨content, behind⟩, tag, same⟩ := Option.map_eq_some_iff.mp found
    obtain ⟨rfl, rfl⟩ := Prod.mk.inj same
    obtain ⟨rfl, takes⟩ := takes_readTag? tag
    exact ⟨['/'] ++ (content ++ ['>']), rfl,
      takes.behind (f := fun content => some (XmlMark.closing (closingName content))) fun _ => rfl⟩
  · next rest =>
    obtain ⟨behind, instruction, same⟩ := Option.map_eq_some_iff.mp found
    obtain ⟨rfl, rfl⟩ := Prod.mk.inj same
    obtain ⟨part, rfl, ends, skips⟩ := takes_skipInstruction? instruction
    refine ⟨'?' :: part, rfl, fun more => ?_, ?_⟩
    · rw [List.cons_append, read?, skips]
      rfl
    · rw [List.getLast?_cons, ends]
      rfl
  · next noBang noSlash noMark =>
    obtain ⟨⟨content, behind⟩, tag, same⟩ := Option.map_eq_some_iff.mp found
    obtain ⟨rfl, rfl⟩ := Prod.mk.inj same
    obtain ⟨rfl, takes⟩ := takes_readTag? tag
    refine ⟨content ++ ['>'], rfl, fun more => ?_, takes.ends⟩
    -- A tag is told from other markup by its first character, and has one: at least the bracket.
    obtain ⟨c, part, form⟩ := List.exists_cons_of_ne_nil (List.append_ne_nil_of_right_ne_nil content
      (List.cons_ne_nil '>' []))
    have tag := takes.reads more
    rw [form, List.cons_append] at noBang noSlash noMark tag ⊢
    have apart : c ≠ '!' ∧ c ≠ '/' ∧ c ≠ '?' := by
      refine ⟨?_, ?_, ?_⟩ <;> rintro rfl
      · exact noBang _ rfl
      · exact noSlash _ rfl
      · exact noMark _ rfl
    rw [read?_tag apart.1 apart.2.1 apart.2.2, tag]
    rfl

end Markup

/-! ### Pieces of a text -/

/-- The marks of a text that stands behind other text of its document. -/
def marks? (text : List Char) : Option (List XmlMark) :=
  readWithin? text.length text

/-- A text without markup is what stands between its ends, if there is anything. -/
theorem readWithin?_run {run : List Char} (plain : '<' ∉ run) (length : Nat) :
    readWithin? length run = some (textMark? run).toList := by
  cases length with
  | zero => rfl
  | succ length =>
    -- The whole text is in front of the first bracket, as there is none.
    have all : ∀ c ∈ run, (c != '<') = true := fun c member =>
      bne_iff_ne.mpr fun same => plain (same ▸ member)
    have none : ∀ d ∈ ([] : List Char).head?, (d != '<') = false := by simp
    have front := takeWhile_stop all none
    have behind := dropWhile_stop all none
    rw [List.append_nil] at front behind
    rw [readWithin?, List.span_eq_takeWhile_dropWhile, front, behind]

/-- With fuel left, a text goes up to the markup behind it, and the rest is read with less fuel. -/
theorem readWithin?_markup {run : List Char} (plain : '<' ∉ run) (length : Nat)
    (markup : List Char) :
    readWithin? (length + 1) (run ++ '<' :: markup) = (read? markup).bind fun (mark, rest) =>
      (readWithin? length rest).map fun later =>
        (textMark? run).toList ++ mark.toList ++ later := by
  -- The text ends at the bracket, and the fuel left is for what is behind the markup.
  have all : ∀ c ∈ run, (c != '<') = true := fun c member =>
    bne_iff_ne.mpr fun same => plain (same ▸ member)
  have stops : ∀ d ∈ ('<' :: markup).head?, (d != '<') = false := by simp
  rw [readWithin?, List.span_eq_takeWhile_dropWhile, takeWhile_stop all stops,
    dropWhile_stop all stops]
  simp only [Option.bind_eq_bind]
  refine Option.bind_congr fun pair _ => ?_
  cases readWithin? length pair.2 <;> simp

/-- A text has no markup, or goes up to the first one. -/
theorem markup_cases (text : List Char) :
    '<' ∉ text ∨ ∃ run markup, '<' ∉ run ∧ text = run ++ '<' :: markup := by
  -- If there is a bracket, the text is cut at the first one.
  by_cases markup : '<' ∈ text
  · obtain ⟨run, behind, rfl, plain⟩ := List.eq_append_cons_of_mem markup
    exact .inr ⟨run, behind, plain, rfl⟩
  · exact .inl markup

/-- All marks of a text are read if as many as it has characters may be. -/
theorem readWithin?_eq {length : Nat} {text : List Char} (bounded : text.length ≤ length) :
    readWithin? length text = marks? text := by
  -- Markup may take several characters, so all shorter lengths are assumed.
  induction length using Nat.strong_induction_on generalizing text with
  | _ length ih =>
  rcases markup_cases text with plain | ⟨run, markup, plain, rfl⟩
  · rw [marks?, readWithin?_run plain, readWithin?_run plain]
  · have size : (run ++ '<' :: markup).length = run.length + markup.length + 1 := by
      simp [Nat.add_assoc]
    obtain ⟨less, rfl⟩ := Nat.exists_eq_add_of_le' (size ▸ bounded)
    rw [marks?, size, ← Nat.add_assoc, readWithin?_markup plain, readWithin?_markup plain]
    refine Option.bind_congr fun pair read => ?_
    obtain ⟨mark, rest⟩ := pair
    obtain ⟨part, rfl, _⟩ := takes_read? read
    have shorter : rest.length ≤ run.length + (part ++ rest).length := by
      rw [List.length_append]
      omega
    simp only
    rw [ih _ (by omega) (by omega : rest.length ≤ less + (run.length + (part ++ rest).length)),
      ih _ (by omega) shorter]

/-- A text goes up to the markup behind it, and what follows the markup is read on its own. -/
theorem marks?_markup {run : List Char} (plain : '<' ∉ run) (markup : List Char) :
    marks? (run ++ '<' :: markup) = (read? markup).bind fun (mark, rest) =>
      (marks? rest).map fun later => (textMark? run).toList ++ mark.toList ++ later := by
  -- What the markup leaves is shorter, so there is fuel for it.
  have size : (run ++ '<' :: markup).length = run.length + markup.length + 1 := by
    simp [Nat.add_assoc]
  rw [marks?, size, readWithin?_markup plain]
  refine Option.bind_congr fun pair read => ?_
  obtain ⟨mark, rest⟩ := pair
  obtain ⟨part, rfl, _⟩ := takes_read? read
  have shorter : rest.length ≤ run.length + (part ++ rest).length := by
    rw [List.length_append]
    omega
  simp only
  rw [readWithin?_eq shorter]

/-- What stands in front of the first markup of a text is read apart from it. -/
theorem marks?_append {run : List Char} (plain : '<' ∉ run) {rest : List Char}
    (begins : ∀ c ∈ rest.head?, c = '<') :
    marks? (run ++ rest) = (marks? rest).map ((textMark? run).toList ++ ·) := by
  have nothing : textMark? [] = none := rfl
  -- The first markup ends the text in front, or the end of all does.
  cases rest with
  | nil =>
    rw [List.append_nil, marks?, readWithin?_run plain]
    simp [marks?, readWithin?, nothing]
  | cons c markup =>
    obtain rfl := begins c rfl
    have alone := @marks?_markup [] (by simp) markup
    rw [List.nil_append] at alone
    rw [marks?_markup plain, alone, Option.map_bind]
    refine Option.bind_congr fun pair _ => ?_
    simp [nothing, Function.comp_def]

/-- The text in front of a place that is no markup: up to the last markup, and behind that. -/
structure IsFront (head front run : List Char) (earlier : List XmlMark) : Prop where
  whole : head = front ++ run
  plain : '<' ∉ run
  /-- The markup in front is read whatever follows. -/
  reads : ∀ rest, marks? (front ++ rest) = (marks? rest).map (earlier ++ ·)
  ends : ∀ c ∈ front.getLast?, c = '>'

/-- A text that is read ends in what stands behind its last markup. -/
theorem exists_isFront {head : List Char} {marks : List XmlMark} (read : marks? head = some marks) :
    ∃ front run earlier, IsFront head front run earlier ∧
      marks = earlier ++ (textMark? run).toList := by
  -- By the length of the text, as each piece of markup is taken off the front.
  induction size : head.length using Nat.strong_induction_on generalizing head marks with
  | _ length ih =>
  subst size
  rcases markup_cases head with plain | ⟨run, markup, plain, rfl⟩
  · rw [marks?, readWithin?_run plain] at read
    exact ⟨[], head, [], ⟨rfl, plain, fun rest => by simp, by simp⟩, (Option.some.inj read).symm⟩
  · rw [marks?_markup plain] at read
    obtain ⟨⟨mark, rest⟩, markupRead, found⟩ := Option.bind_eq_some_iff.mp read
    obtain ⟨later, restRead, rfl⟩ := Option.map_eq_some_iff.mp found
    obtain ⟨part, rfl, takes⟩ := takes_read? markupRead
    have shorter : rest.length < (run ++ '<' :: (part ++ rest)).length := by
      simp only [List.length_append, List.length_cons]
      omega
    obtain ⟨front, behind, earlier, isFront, rfl⟩ := ih _ shorter restRead rfl
    refine ⟨run ++ '<' :: (part ++ front), behind,
      (textMark? run).toList ++ mark.toList ++ earlier, ⟨?_, isFront.plain, fun more => ?_, ?_⟩, ?_⟩
    · rw [isFront.whole]
      simp
    · rw [List.append_assoc, List.cons_append, List.append_assoc, marks?_markup plain,
        takes.reads, Option.bind_some]
      simp only
      rw [isFront.reads, Option.map_map]
      simp [Function.comp_def]
    · intro c last
      -- The markup is the last one, or a later one is.
      cases front with
      | nil =>
        rw [List.append_nil, List.getLast?_append, List.getLast?_cons, takes.ends] at last
        exact (Option.some.inj last).symm
      | cons d front =>
        refine isFront.ends c ?_
        rw [← List.cons_append, ← List.append_assoc, List.getLast?_append] at last
        rw [List.getLast?_cons] at last ⊢
        exact last
    · simp

/-- A comment. -/
def comment (body : List Char) : List Char :=
  "<!--".toList ++ body ++ "-->".toList

/-- Text up to a comment is read apart from what stands behind the comment. -/
theorem marks?_comment {run body : List Char} (plain : '<' ∉ run)
    (inside : ¬ "-->".toList <:+: body ++ "--".toList) (tail : List Char) :
    marks? (run ++ (comment body ++ tail)) = (marks? tail).map ((textMark? run).toList ++ ·) := by
  -- The comment ends at its own end, since no other one is inside.
  have closes : splitAtText? "-->".toList (body ++ "-->".toList ++ tail) = some (body, tail) :=
    (splitAtText?_eq_some_iff (by decide)).mpr ⟨rfl, inside⟩
  have read : read? ('!' :: ("--".toList ++ (body ++ "-->".toList ++ tail))) =
      some (none, tail) := by
    rw [read?, readBang?, afterStart?_append]
    simp only
    rw [closes]
    rfl
  have form : comment body ++ tail =
      '<' :: '!' :: ("--".toList ++ (body ++ "-->".toList ++ tail)) := by
    simp [comment]
  rw [form, marks?_markup plain, read]
  simp

/-! ### White space around text -/

/-- A text without the white space around it. -/
def kept (raw : List Char) : List Char :=
  dropEndWhile XmlTag.isGap (raw.dropWhile XmlTag.isGap)

/-- A text parted into what is kept of it and the white space around that. -/
structure Surrounds (front inner back : List Char) : Prop where
  gapsInFront : ∀ c ∈ front, XmlTag.isGap c = true
  gapsBehind : ∀ c ∈ back, XmlTag.isGap c = true
  starts : ∀ c ∈ inner.head?, XmlTag.isGap c = false
  ends : ∀ c ∈ inner.getLast?, XmlTag.isGap c = false

section Gaps

variable {front inner back : List Char}

/-- Nothing is left of white space. -/
theorem dropEndWhile_gaps (gaps : ∀ c ∈ back, XmlTag.isGap c = true) :
    dropEndWhile XmlTag.isGap back = [] := by
  -- All of it is dropped from the reversed text.
  rw [dropEndWhile, List.reverse_eq_nil_iff, List.dropWhile_eq_nil_iff]
  exact fun c member => gaps c (List.mem_reverse.mp member)

/-- White space is dropped from the end of a text up to what is none. -/
theorem dropEndWhile_append (ends : ∀ c ∈ front.getLast?, XmlTag.isGap c = false)
    (back : List Char) :
    dropEndWhile XmlTag.isGap (front ++ back) = front ++ dropEndWhile XmlTag.isGap back := by
  -- The last character of the front is kept, and dropping stops there.
  rcases List.eq_nil_or_concat front with rfl | ⟨front, c, rfl⟩
  · rfl
  · have stops := dropEndWhile_stop (ends c (by simp)) front back
    simpa using stops

/-- What stands between white space is kept. -/
theorem Surrounds.kept_eq (around : Surrounds front inner back) :
    kept (front ++ inner ++ back) = inner := by
  rw [kept, List.append_assoc]
  -- Without anything between it, all of it is white space.
  cases inner with
  | nil =>
    have all : ∀ c ∈ front ++ ([] ++ back), XmlTag.isGap c = true := fun c member => by
      rcases List.mem_append.mp member with inFront | behind
      · exact around.gapsInFront c inFront
      · exact around.gapsBehind c behind
    rw [List.dropWhile_eq_nil_iff.mpr all]
    rfl
  | cons c inner =>
    rw [dropWhile_stop around.gapsInFront (by simpa using around.starts),
      dropEndWhile_append around.ends, dropEndWhile_gaps around.gapsBehind, List.append_nil]

/-- White space behind a text is dropped from its end. -/
theorem Surrounds.dropEndWhile_eq (around : Surrounds front inner back) :
    ∃ left, (∀ c ∈ left, XmlTag.isGap c = true) ∧
      dropEndWhile XmlTag.isGap (front ++ inner ++ back) = left ++ inner := by
  -- With nothing kept, the white space on both sides is dropped as one.
  by_cases blank : inner = []
  · subst blank
    refine ⟨[], by simp, dropEndWhile_gaps fun c member => ?_⟩
    rw [List.append_nil] at member
    rcases List.mem_append.mp member with inFront | behind
    · exact around.gapsInFront c inFront
    · exact around.gapsBehind c behind
  · have ends : ∀ c ∈ (front ++ inner).getLast?, XmlTag.isGap c = false := by
      rw [List.getLast?_append_of_ne_nil _ blank]
      exact around.ends
    refine ⟨front, around.gapsInFront, ?_⟩
    rw [dropEndWhile_append ends, dropEndWhile_gaps around.gapsBehind, List.append_nil]

/-- White space in front of a text is dropped from its start. -/
theorem Surrounds.dropWhile_eq (around : Surrounds front inner back) :
    ∃ left, (∀ c ∈ left, XmlTag.isGap c = true) ∧
      (front ++ inner ++ back).dropWhile XmlTag.isGap = inner ++ left := by
  rw [List.append_assoc, List.dropWhile_append_of_pos around.gapsInFront]
  -- Without an inner text all is dropped, and otherwise its first character stops that.
  cases inner with
  | nil => exact ⟨[], by simp, List.dropWhile_eq_nil_iff.mpr around.gapsBehind⟩
  | cons c inner =>
    exact ⟨back, around.gapsBehind, IndexAudit.dropWhile_eq (by simpa using around.starts)⟩

/-- Each text has white space around what is kept of it. -/
theorem exists_surrounds (raw : List Char) :
    ∃ front back, raw = front ++ kept raw ++ back ∧ Surrounds front (kept raw) back := by
  -- From the front first, and what is left of it then from the end.
  generalize behind : raw.dropWhile XmlTag.isGap = rest
  have whole := @List.takeWhile_append_dropWhile _ XmlTag.isGap raw
  have parted := @List.takeWhile_append_dropWhile _ XmlTag.isGap rest.reverse
  have inner : kept raw = (rest.reverse.dropWhile XmlTag.isGap).reverse := by
    rw [kept, behind, dropEndWhile]
  have same : rest = kept raw ++ (rest.reverse.takeWhile XmlTag.isGap).reverse := by
    rw [inner, ← List.reverse_append, parted, List.reverse_reverse]
  refine ⟨raw.takeWhile XmlTag.isGap, (rest.reverse.takeWhile XmlTag.isGap).reverse,
    ?_, ?_, ?_, ?_, ?_⟩
  · rw [List.append_assoc, ← same, ← behind, whole]
  · exact fun c member => List.mem_takeWhile_imp member
  · exact fun c member => List.mem_takeWhile_imp (List.mem_reverse.mp member)
  · intro c first
    refine head?_dropWhile raw c ?_
    rw [behind, same, List.head?_append, Option.mem_def.mp first]
    rfl
  · intro c last
    rw [inner, List.getLast?_reverse] at last
    exact head?_dropWhile _ c last

/-- A text and another one behind it are kept as one, with the white space between them. -/
theorem kept_append (run after : List Char) :
    ∃ gap, (∀ c ∈ gap, XmlTag.isGap c = true) ∧ (kept after = [] → gap = []) ∧
      kept (run ++ after) = kept run ++ gap ++ kept after := by
  obtain ⟨front, back, whole, around⟩ := exists_surrounds run
  obtain ⟨front', back', whole', around'⟩ := exists_surrounds after
  have gaps {x y z : List Char} (first : ∀ c ∈ x, XmlTag.isGap c = true)
      (second : ∀ c ∈ y, XmlTag.isGap c = true) (third : ∀ c ∈ z, XmlTag.isGap c = true) :
      ∀ c ∈ x ++ (y ++ z), XmlTag.isGap c = true := by
    intro c member
    simp only [List.mem_append] at member
    rcases member with member | member | member
    · exact first c member
    · exact second c member
    · exact third c member
  generalize kept run = inner at whole around
  generalize kept after = inner' at whole' around'
  subst whole whole'
  -- White space at an end of both texts together is not kept, wherever it comes from.
  by_cases blank : inner' = []
  · subst blank
    refine ⟨[], by simp, fun _ => rfl, ?_⟩
    have all : Surrounds front inner (back ++ (front' ++ back')) :=
      ⟨around.gapsInFront, gaps around.gapsBehind around'.gapsInFront around'.gapsBehind,
        around.starts, around.ends⟩
    simpa using all.kept_eq
  · by_cases blankToo : inner = []
    · subst blankToo
      refine ⟨[], by simp, fun _ => rfl, ?_⟩
      have all : Surrounds (front ++ (back ++ front')) inner' back' :=
        ⟨gaps around.gapsInFront around.gapsBehind around'.gapsInFront, around'.gapsBehind,
          around'.starts, around'.ends⟩
      simpa using all.kept_eq
    · -- White space is only kept between two texts.
      refine ⟨back ++ front', ?_, fun none => absurd none blank, ?_⟩
      · simpa using @gaps [] back front' (by simp) around.gapsBehind around'.gapsInFront
      · have all : Surrounds front (inner ++ (back ++ front') ++ inner') back' := by
          refine ⟨around.gapsInFront, around'.gapsBehind, ?_, ?_⟩
          · obtain ⟨c, more, rfl⟩ := List.exists_cons_of_ne_nil blankToo
            simpa using around.starts
          · rw [List.getLast?_append_of_ne_nil _ blank]
            exact around'.ends
        simpa using all.kept_eq

/-- Without the white space between them, they are kept one right behind the other. -/
theorem kept_cut (run after : List Char) :
    kept (dropEndWhile XmlTag.isGap run ++ after.dropWhile XmlTag.isGap) =
      kept run ++ kept after := by
  obtain ⟨front, back, whole, around⟩ := exists_surrounds run
  obtain ⟨front', back', whole', around'⟩ := exists_surrounds after
  generalize kept run = inner at whole around
  generalize kept after = inner' at whole' around'
  subst whole whole'
  obtain ⟨left, gaps, ended⟩ := around.dropEndWhile_eq
  obtain ⟨left', gaps', started⟩ := around'.dropWhile_eq
  -- What is kept of either begins and ends with no white space, so both together do.
  have all : Surrounds left (inner ++ inner') left' := by
    refine ⟨gaps, gaps', ?_, ?_⟩
    · cases inner with
      | nil => exact around'.starts
      | cons c inner => simpa using around.starts
    · rcases List.eq_nil_or_concat inner' with rfl | ⟨inner', c, rfl⟩
      · simpa using around.ends
      · simpa using around'.ends
  rw [ended, started]
  simpa using all.kept_eq

end Gaps

end XmlMark

end IndexAudit
