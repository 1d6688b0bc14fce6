import IndexAudit.Proofs.Text.Search
import IndexAudit.Query.Suppression
import Mathlib.Data.List.TakeWhile

/-!
What the directive in a comment says.

A directive is a word of its own. In brackets behind it stand the columns that it concerns, each
between a pair of double quotes; without brackets it concerns them all.
-/

namespace IndexAudit

/-- Lowering a text does not empty it. -/
@[simp] theorem lowerChars_eq_nil {text : List Char} : lowerChars text = [] ↔ text = [] := by
  refine ⟨fun empty => ?_, fun empty => by rw [empty]; rfl⟩
  cases text with
  | nil => rfl
  | cons c rest =>
    -- No single character is lowered to nothing.
    have one : lowerChar c ≠ [] := by
      unfold lowerChar
      split
      · simp
      split
      · simp
      split <;> simp
    rw [lowerChars, lowerAfter] at empty
    split at empty
    · split at empty <;> simp at empty
    · simp [one] at empty

namespace Suppression

/-- A directive stands in a comment, with a text behind it that no longer word goes on into. -/
structure IsDirective (comment after : List Char) : Prop where
  stands : directive ++ after <:+ comment
  ends : ∀ c ∈ after.head?, isWordChar c = false

/-- Behind a directive come brackets around a text. -/
def HasArguments (after inside : List Char) : Prop :=
  ∃ blanks behind, after = blanks ++ '(' :: (inside ++ ')' :: behind) ∧
    (∀ c ∈ blanks, isAsciiBlank c = true) ∧ ')' ∉ inside

/-- A directive is followed by no brackets. -/
def IsBare (after : List Char) : Prop :=
  ∀ inside, ¬ HasArguments after inside

/-- A name stands between two double quotes, all of those in front of them being pairs. -/
inductive Quotes (name : List Char) : List Char → Prop
  | here {front behind : List Char} (unquoted : '"' ∉ front) (plain : '"' ∉ name) :
      Quotes name (front ++ '"' :: (name ++ '"' :: behind))
  | later {front other behind : List Char} (unquoted : '"' ∉ front) (plain : '"' ∉ other)
      (found : Quotes name behind) : Quotes name (front ++ '"' :: (other ++ '"' :: behind))

/-- A directive names a column; white space alone is no name. -/
def Names (after name : List Char) : Prop :=
  ∃ inside, HasArguments after inside ∧ Quotes name inside ∧ trim name ≠ []

/-- A comment has a directive that is bare or names a column in some letter case. -/
def Covers (comment : List Char) (column : String) : Prop :=
  ∃ after, IsDirective comment after ∧
    (IsBare after ∨ ∃ name, Names after name ∧ lower (String.ofList (trim name)) = lower column)

/-- A directive is the first one of its comment: the others are behind it. -/
structure IsFirst (comment after : List Char) : Prop where
  isDirective : IsDirective comment after
  inFront : ∀ {other}, IsDirective comment other → other <:+ after

/-- A comment has a directive the first of which names a column in some letter case, or none. -/
def Suppresses (comment : List Char) (column : String) : Prop :=
  ∃ after, IsFirst comment after ∧
    ((∀ name, ¬ Names after name) ∨
      ∃ name, Names after name ∧ lower (String.ofList (trim name)) = lower column)

/-- A comment has at most one directive, which is bare or names a column. -/
structure IsPlain (comment : List Char) : Prop where
  single : ∀ {after other}, IsDirective comment after → IsDirective comment other → after = other
  told : ∀ {after}, IsDirective comment after → IsBare after ∨ ∃ name, Names after name

/-! The parts of a directive are found where they stand. -/

/-- A directive has a first character. -/
theorem directive_ne_nil : directive ≠ [] := by
  decide

/-- What follows the first directive of a comment is behind a directive. -/
theorem isDirective_of_afterDirective? {comment after : List Char}
    (found : afterDirective? comment = some after) : IsDirective comment after := by
  induction comment with
  | nil => simp [afterDirective?] at found
  | cons c rest ih =>
    -- A directive further on is also one of the whole comment.
    have further (later : afterDirective? rest = some after) :
        IsDirective (c :: rest) after :=
      ⟨(ih later).stands.trans (List.suffix_cons c rest), (ih later).ends⟩
    rw [afterDirective?] at found
    split at found
    · rename_i behind starts
      split at found
      · exact further found
      · rename_i ends
        obtain rfl : behind = after := by simpa using found
        refine ⟨?_, fun d first => ?_⟩
        · rw [← afterStart?_eq_some_iff.mp starts]
        · simpa [Option.mem_def.mp first] using ends
    · exact further found

/-- A directive is found in each comment that has one. -/
theorem afterDirective?_isSome {comment after : List Char}
    (stands : IsDirective comment after) : (afterDirective? comment).isSome = true := by
  induction comment with
  | nil =>
    have empty := List.suffix_nil.mp stands.stands
    exact absurd (List.append_eq_nil_iff.mp empty).1 directive_ne_nil
  | cons c rest ih =>
    rw [afterDirective?]
    -- The directive stands here, or in what is behind this character.
    rcases List.suffix_cons_iff.mp stands.stands with here | later
    · rw [← here, afterStart?_append]
      have ends : (after.head?.any isWordChar) = false := by
        cases first : after.head? with
        | none => rfl
        | some d => simpa using stands.ends d first
      simp [ends]
    · have found := ih ⟨later, stands.ends⟩
      split
      · split
        · exact found
        · rfl
      · exact found

/-- All directives of a comment are behind the one that is found. -/
theorem suffix_of_afterDirective? {comment after other : List Char}
    (found : afterDirective? comment = some after) (stands : IsDirective comment other) :
    other <:+ after := by
  induction comment with
  | nil => simp [afterDirective?] at found
  | cons c rest ih =>
    -- Where the directive is not found here, none stands here.
    have further (later : afterDirective? rest = some after)
        (apart : directive ++ other ≠ c :: rest) : other <:+ after := by
      rcases List.suffix_cons_iff.mp stands.stands with here | behind
      · exact absurd here apart
      · exact ih later ⟨behind, stands.ends⟩
    rw [afterDirective?] at found
    split at found
    · rename_i behind starts
      have whole := afterStart?_eq_some_iff.mp starts
      split at found
      · rename_i goesOn
        refine further found fun here => ?_
        obtain rfl : behind = other := List.append_cancel_left (whole.trans here.symm)
        cases first : behind.head? with
        | none => simp [first] at goesOn
        | some d => simp [first, stands.ends d first] at goesOn
      · obtain rfl : behind = after := by simpa using found
        rcases List.suffix_cons_iff.mp stands.stands with here | further
        · rw [List.append_cancel_left (here.trans whole.symm)]
        · have within := ((List.suffix_append directive other).trans further).trans
            (List.suffix_cons c rest)
          have shorter : other.length ≤ behind.length := by
            have long := further.length_le
            have total := congrArg List.length whole
            simp only [List.length_append, List.length_cons] at long total
            have filled := List.length_pos_iff.mpr directive_ne_nil
            omega
          exact List.suffix_of_suffix_length_le within
            (whole ▸ List.suffix_append directive behind) shorter
    · rename_i absent
      refine further found fun here => ?_
      rw [← here, afterStart?_append] at absent
      cases absent

/-- The directive that is found in a comment is its first one. -/
theorem afterDirective?_eq_some_iff {comment after : List Char} :
    afterDirective? comment = some after ↔ IsFirst comment after := by
  constructor
  · intro found
    exact ⟨isDirective_of_afterDirective? found, suffix_of_afterDirective? found⟩
  · intro isFirst
    obtain ⟨other, found⟩ :=
      Option.isSome_iff_exists.mp (afterDirective?_isSome isFirst.isDirective)
    -- Each of the two stands at or in front of the other, so they are one.
    have inFront := suffix_of_afterDirective? found isFirst.isDirective
    have behind := isFirst.inFront (isDirective_of_afterDirective? found)
    rw [found, inFront.eq_of_length_le behind.length_le]

/-- A text without a character is all other characters. -/
theorem forall_bne {text : List Char} {c : Char} (plain : c ∉ text) :
    ∀ d ∈ text, (d != c) = true := by
  -- An element of the text is not one that is missing from it.
  intro d member
  rw [bne_iff_ne]
  exact ne_of_mem_of_not_mem member plain

/-- The arguments of a directive are read where there are brackets behind it. -/
theorem arguments?_eq_some_iff {after inside : List Char} :
    arguments? after = some inside ↔ HasArguments after inside := by
  constructor
  · intro found
    have whole := List.takeWhile_append_dropWhile (p := isAsciiBlank) (l := after)
    rw [arguments?] at found
    split at found
    · rename_i rest opened
      split at found
      · rename_i closed
        -- The arguments end at the first bracket that closes.
        obtain ⟨front, behind, parts, plain⟩ :=
          List.eq_append_cons_of_mem (show ')' ∈ rest by simpa using closed)
        obtain rfl : front = inside := by
          rw [parts, List.takeWhile_append_of_pos (forall_bne plain)] at found
          simpa using found
        refine ⟨after.takeWhile isAsciiBlank, behind, ?_, fun c => List.mem_takeWhile_imp, plain⟩
        rw [← parts, ← opened, whole]
      · cases found
    · cases found
  · rintro ⟨blanks, behind, rfl, white, plain⟩
    have opened : (blanks ++ '(' :: (inside ++ ')' :: behind)).dropWhile isAsciiBlank =
        '(' :: (inside ++ ')' :: behind) := by
      rw [List.dropWhile_append_of_pos white]
      exact List.dropWhile_cons_of_neg (by decide)
    have inner : (inside ++ ')' :: behind).takeWhile (· != ')') = inside := by
      rw [List.takeWhile_append_of_pos (forall_bne plain)]
      simp
    simp [arguments?, opened, inner]

section Quoted

variable {text : List Char}

/-- Outside quotes the text up to the next one is passed over. -/
theorem quotedTexts_none (plain : '"' ∉ text) (rest : List Char) :
    quotedTexts none (text ++ '"' :: rest) = quotedTexts (some []) rest := by
  induction text with
  | nil => simp [quotedTexts]
  | cons c text ih =>
    -- The first character is no quote, so it is passed over.
    obtain ⟨apart, plain⟩ := List.ne_and_not_mem_of_not_mem_cons plain
    simpa [quotedTexts, Ne.symm apart] using ih plain

/-- Inside quotes the text up to the next one is taken. -/
theorem quotedTexts_some (plain : '"' ∉ text) (taken rest : List Char) :
    quotedTexts (some taken) (text ++ '"' :: rest) =
      (taken.reverse ++ text) :: quotedTexts none rest := by
  induction text generalizing taken with
  | nil => simp [quotedTexts]
  | cons c text ih =>
    -- The first character is no quote, so it is taken, and the taken ones are reversed at the end.
    obtain ⟨apart, plain⟩ := List.ne_and_not_mem_of_not_mem_cons plain
    simpa [quotedTexts, Ne.symm apart] using ih plain (c :: taken)

/-- Where no quote comes, no text ends. -/
theorem quotedTexts_plain (plain : '"' ∉ text) (inside : Option (List Char)) :
    quotedTexts inside text = [] := by
  induction text generalizing inside with
  | nil => simp [quotedTexts]
  | cons c text ih =>
    -- The first character ends nothing, whether it is inside of quotes or not.
    obtain ⟨apart, plain⟩ := List.ne_and_not_mem_of_not_mem_cons plain
    cases inside <;> simp [quotedTexts, Ne.symm apart, ih plain]

end Quoted

/-- A text that is read between quotes stands between quotes. -/
theorem quotes_of_mem {name text : List Char} (member : name ∈ quotedTexts none text) :
    Quotes name text := by
  -- One pair of quotes is taken after the other.
  by_cases opened : '"' ∈ text
  · obtain ⟨front, rest, rfl, unquoted⟩ := List.eq_append_cons_of_mem opened
    rw [quotedTexts_none unquoted] at member
    by_cases closed : '"' ∈ rest
    · obtain ⟨other, behind, rfl, plain⟩ := List.eq_append_cons_of_mem closed
      rw [quotedTexts_some plain, List.reverse_nil, List.nil_append] at member
      rcases List.mem_cons.mp member with rfl | member
      · exact .here unquoted plain
      · exact .later unquoted plain (quotes_of_mem member)
    · simp [quotedTexts_plain closed] at member
  · simp [quotedTexts_plain opened] at member
termination_by text.length

/-- The texts that are read between quotes are those that stand between quotes. -/
theorem mem_quotedTexts_iff {name text : List Char} :
    name ∈ quotedTexts none text ↔ Quotes name text := by
  refine ⟨quotes_of_mem, fun quotes => ?_⟩
  -- Each pair of quotes that stands in the text is read as one, the first as the later ones.
  induction quotes with
  | here unquoted plain => simp [quotedTexts_none unquoted, quotedTexts_some plain]
  | later unquoted plain found ih =>
    simp [quotedTexts_none unquoted, quotedTexts_some plain, ih]

/-- The columns of arguments are the names in them, in lower case. -/
theorem mem_columnsOf_iff {column : String} {inside : List Char} :
    column ∈ columnsOf inside ↔
      ∃ name, Quotes name inside ∧ trim name ≠ [] ∧ lower (String.ofList (trim name)) = column := by
  simp only [columnsOf, List.mem_filter, List.mem_map, mem_quotedTexts_iff, lower,
    String.toList_ofList]
  constructor
  · rintro ⟨⟨name, quotes, rfl⟩, filled⟩
    -- The lower case of a blank name is empty, and empty names are left out.
    refine ⟨name, quotes, fun blank => ?_, rfl⟩
    simp [blank, lowerChars, lowerAfter] at filled
  · rintro ⟨name, quotes, filled, rfl⟩
    refine ⟨⟨name, quotes, rfl⟩, ?_⟩
    simpa using filled

/-- A directive is bare if no arguments are read behind it. -/
theorem isBare_iff {after : List Char} : IsBare after ↔ arguments? after = none := by
  -- Arguments that are read are those that stand there.
  rw [Option.eq_none_iff_forall_ne_some]
  exact forall_congr' fun inside => not_congr arguments?_eq_some_iff.symm

/-- A directive names the columns that are read from its arguments. -/
theorem exists_names_iff {after inside : List Char} (given : arguments? after = some inside)
    (column : String) :
    (∃ name, Names after name ∧ lower (String.ofList (trim name)) = column) ↔
      column ∈ columnsOf inside := by
  rw [mem_columnsOf_iff]
  constructor
  · rintro ⟨name, ⟨other, has, quotes, filled⟩, same⟩
    -- There is only one text that the brackets can be around.
    obtain rfl : inside = other := by simpa [given] using arguments?_eq_some_iff.mpr has
    exact ⟨name, quotes, filled, same⟩
  · rintro ⟨name, quotes, filled, same⟩
    exact ⟨name, ⟨inside, arguments?_eq_some_iff.mp given, quotes, filled⟩, same⟩

/-- A directive is bare or names a column where its arguments, if any, list columns. -/
theorem isTold_iff {after : List Char} :
    (IsBare after ∨ ∃ name, Names after name) ↔
      (arguments? after).all (fun inside => columnsOf inside ≠ []) = true := by
  rw [isBare_iff]
  -- Without arguments the directive is bare, and with some it is told by the columns in them.
  cases given : arguments? after with
  | none => simp
  | some inside =>
    have listed : (∃ name, Names after name) ↔ ∃ column, column ∈ columnsOf inside := by
      simp only [← exists_names_iff given]
      exact ⟨fun ⟨name, names⟩ => ⟨_, name, names, rfl⟩, fun ⟨_, name, names, _⟩ => ⟨name, names⟩⟩
    simp [listed, List.eq_nil_iff_forall_not_mem]

/-- A directive concerns a column if it is bare or lists the column among its arguments. -/
theorem concerns_iff {after : List Char} {column : String} :
    (IsBare after ∨ ∃ name, Names after name ∧ lower (String.ofList (trim name)) = lower column) ↔
      (arguments? after).all (fun inside => lower column ∈ columnsOf inside) = true := by
  rw [isBare_iff]
  -- Without arguments the directive is bare; otherwise the columns in them are its names.
  cases given : arguments? after with
  | none => simp
  | some inside => simp [exists_names_iff given]

/-- The texts behind the directives of a comment. -/
def directives (comment : List Char) : List (List Char) :=
  (comment.tails.filterMap (afterStart? directive)).filter fun after => !after.head?.any isWordChar

/-- The directives of a comment are those that are found behind some part of it. -/
theorem mem_directives_iff {comment after : List Char} :
    after ∈ directives comment ↔ IsDirective comment after := by
  -- No longer word goes on from the directive.
  have ends : (!after.head?.any isWordChar) = true ↔ ∀ c ∈ after.head?, isWordChar c = false := by
    cases after.head? <;> simp
  simp only [directives, List.mem_filter, List.mem_filterMap, List.mem_tails,
    afterStart?_eq_some_iff, ends]
  constructor
  · rintro ⟨⟨_, stands, rfl⟩, ends⟩
    exact ⟨stands, ends⟩
  · rintro ⟨stands, ends⟩
    exact ⟨⟨_, stands, rfl⟩, ends⟩

instance decidableIsPlain (comment : List Char) : Decidable (IsPlain comment) :=
  decidable_of_iff
    (∀ after ∈ directives comment, (∀ other ∈ directives comment, after = other) ∧
      (arguments? after).all (fun inside => columnsOf inside ≠ []) = true)
    (by
      simp only [mem_directives_iff, ← isTold_iff]
      exact ⟨fun plain => ⟨fun first second => (plain _ first).1 _ second,
          fun stands => (plain _ stands).2⟩,
        fun plain after stands => ⟨fun other elsewhere => plain.single stands elsewhere,
          plain.told stands⟩⟩)

instance decidableCovers (comment : List Char) (column : String) :
    Decidable (Covers comment column) :=
  decidable_of_iff
    (∃ after ∈ directives comment,
      (arguments? after).all (fun inside => lower column ∈ columnsOf inside) = true)
    (by simp only [mem_directives_iff, ← concerns_iff, Covers])

/-- What is read behind a directive are the columns that it names. -/
theorem mem_listed_iff {after : List Char} {column : String} :
    column ∈ ((arguments? after).map columnsOf).getD [] ↔
      ∃ name, Names after name ∧ lower (String.ofList (trim name)) = column := by
  -- Without arguments it names nothing, and nothing is read.
  cases given : arguments? after with
  | none =>
    have nothing : ¬ ∃ name, Names after name ∧ lower (String.ofList (trim name)) = column := by
      rintro ⟨name, ⟨inside, has, -, -⟩, -⟩
      exact isBare_iff.mpr given inside has
    simpa using nothing
  | some inside => exact (exists_names_iff given column).symm

/-- What is read from a comment covers the columns that the comment suppresses. -/
theorem ofLine?_suppresses (line : SourceLine) (column : String) :
    (ofLine? line).any (·.covers column) = true ↔ Suppresses line.comment column := by
  cases found : afterDirective? line.comment with
  | none =>
    -- Without a directive nothing is suppressed.
    have nothing : ¬ Suppresses line.comment column := by
      rintro ⟨after, isFirst, -⟩
      simpa [found] using afterDirective?_isSome isFirst.isDirective
    simp [ofLine?, found, nothing]
  | some after =>
    have isFirst := afterDirective?_eq_some_iff.mp found
    have listed : ((arguments? after).map columnsOf).getD [] = [] ↔ ∀ name, ¬ Names after name := by
      simp only [List.eq_nil_iff_forall_not_mem, mem_listed_iff]
      exact ⟨fun none name names => none _ ⟨name, names, rfl⟩,
        fun none column found => found.elim fun name named => none name named.1⟩
    have only : Suppresses line.comment column ↔ ((∀ name, ¬ Names after name) ∨
        ∃ name, Names after name ∧ lower (String.ofList (trim name)) = lower column) := by
      constructor
      · rintro ⟨other, isFirstToo, concerns⟩
        rw [← afterDirective?_eq_some_iff, found] at isFirstToo
        rwa [Option.some.inj isFirstToo]
      · exact fun concerns => ⟨after, isFirst, concerns⟩
    rw [only, ← listed, ← mem_listed_iff]
    simp [ofLine?, found, covers]

/-- A comment with one directive, bare or not, suppresses what that directive covers. -/
theorem IsPlain.suppresses_iff {comment : List Char} (plain : IsPlain comment) (column : String) :
    Suppresses comment column ↔ Covers comment column := by
  constructor
  · rintro ⟨after, isFirst, nameless | named⟩
    · rcases plain.told isFirst.isDirective with bare | ⟨name, names⟩
      · exact ⟨after, isFirst.isDirective, .inl bare⟩
      · exact absurd names (nameless name)
    · exact ⟨after, isFirst.isDirective, .inr named⟩
  · rintro ⟨after, stands, concerns⟩
    -- In a plain comment no directive stands at another place.
    have isFirst : IsFirst comment after := by
      refine ⟨stands, fun elsewhere => ?_⟩
      rw [plain.single stands elsewhere]
    refine ⟨after, isFirst, concerns.imp_left fun bare name names => ?_⟩
    obtain ⟨inside, has, -⟩ := names
    exact bare inside has

instance decidableSuppresses (comment : List Char) (column : String) :
    Decidable (Suppresses comment column) :=
  decidable_of_iff _ (ofLine?_suppresses ⟨0, [], comment⟩ column)

/-- A comment without a directive suppresses nothing. -/
theorem ofLine?_eq_none {line : SourceLine} (silent : ¬ directive <:+: line.comment) :
    ofLine? line = none := by
  -- Were one found, its text would stand in the comment.
  cases found : afterDirective? line.comment with
  | none => simp [ofLine?, found]
  | some after =>
    have stands := (isDirective_of_afterDirective? found).stands
    exact absurd ((List.prefix_append directive after).isInfix.trans stands.isInfix) silent

end Suppression

end IndexAudit
