import IndexAudit.Proofs.Code.Closed
import IndexAudit.Proofs.Code.Declaration

/-!
Searches of code that other code stands behind, on lines of its own or as a block.

A search that finds something finds the same with more code behind. One that finds nothing goes on
in that code, unless what it looks for has begun already.
-/

namespace IndexAudit

section Taking

variable {α : Type} {p : α → Bool} {front back : List α}

/-- What is taken of a list is taken of it alone, if what stands behind ends the taking. -/
theorem takeWhile_append_stop (stops : ∀ x ∈ back.head?, p x = false) :
    (front ++ back).takeWhile p = front.takeWhile p := by
  have nothing : back.takeWhile p = [] := by
    cases back with
    | nil => rfl
    | cons x back => simp [stops x rfl]
  -- The front is taken as far as it goes, and nothing of the back behind it.
  induction front with
  | nil => exact nothing
  | cons x front ih =>
    by_cases taken : p x = true
    · simp [taken, ih]
    · simp [taken]

/-- What is left behind what is taken has what stands behind at its end. -/
theorem drop_takeWhile_append (stops : ∀ x ∈ back.head?, p x = false) :
    (front ++ back).drop ((front ++ back).takeWhile p).length =
      front.drop (front.takeWhile p).length ++ back := by
  -- As much is taken as of the front alone, so only of that something is left out.
  rw [takeWhile_append_stop stops, List.drop_append_of_le_length]
  exact List.Sublist.length_le (List.takeWhile_sublist p)

end Taking

namespace Glyph.IsBehind

variable {code back : List Glyph}

/-- What code behind other code begins with is of no kind that takes no such character. -/
theorem stops (behind : IsBehind back) {p : Char → Bool}
    (apart : p '\n' = false ∧ p '{' = false) : ∀ glyph ∈ back.head?, p glyph.shown = false := by
  -- The code begins with a line break or a bracket, and both end it.
  intro glyph first
  rcases behind glyph first with shown | shown
  · rw [shown, apart.1]
  · rw [shown, apart.2]

/-- Neither is the first character of what a search sees there. -/
theorem stopsText (behind : IsBehind back) {p : Char → Bool}
    (apart : p '\n' = false ∧ p '{' = false) : ∀ c ∈ (shownText back).head?, p c = false := by
  -- The text that is seen begins with what is seen of the first glyph.
  intro c first
  obtain ⟨glyph, isFirst, rfl⟩ : ∃ glyph ∈ back.head?, glyph.shown = c := by
    simpa [shownText] using first
  exact behind.stops apart glyph isFirst

/-- No test holds of its first character that takes no such character. -/
theorem any_eq_false (behind : IsBehind back) {p : Char → Bool}
    (apart : p '\n' = false ∧ p '{' = false) : (back.head?.map (·.shown)).any p = false := by
  -- If there is a first glyph it is one of the two.
  cases back with
  | nil => rfl
  | cons glyph back => exact behind.stops apart glyph rfl

end Glyph.IsBehind

section Reading

variable {code back : List Glyph} (behind : Glyph.IsBehind back)
include behind

/-- A word ends in front of what stands behind. -/
theorem afterText?_append {text : List Char} (parts : ∀ c ∈ text, isWordChar c = true)
    (code : List Glyph) :
    afterText? text (code ++ back) = (afterText? text code).map (· ++ back) := by
  induction text generalizing code with
  | nil => rfl
  | cons c text ih =>
    obtain ⟨isPart, parts⟩ := List.forall_mem_cons.mp parts
    cases code with
    | nil =>
      cases back with
      | nil => rfl
      -- What stands behind begins with no part of a word, so the text does not go on there.
      | cons glyph back =>
        have apart : glyph.shown ≠ c := by
          rintro rfl
          exact absurd (isPart.symm.trans (behind.stops (by decide) glyph rfl)) (by decide)
        simp [afterText?, apart]
    | cons glyph code =>
      by_cases same : glyph.shown = c
      · simp [afterText?, same, ih parts]
      · simp [afterText?, same]

/-- A name ends in front of what stands behind. -/
theorem readName?_append (code : List Glyph) :
    readName? (code ++ back) = (readName? code).map fun read => (read.1, read.2 ++ back) := by
  have name : (Glyph.shownText (code ++ back)).takeWhile isWordChar =
      (Glyph.shownText code).takeWhile isWordChar := by
    rw [Glyph.shownText, List.map_append]
    exact takeWhile_append_stop (behind.stopsText (by decide))
  -- The name ends in the code in front, at its end at the latest.
  have within : ((Glyph.shownText code).takeWhile isWordChar).length ≤ code.length := by
    simpa [Glyph.shownText] using
      List.Sublist.length_le (List.takeWhile_sublist isWordChar (l := Glyph.shownText code))
  simp only [readName?, name, List.drop_append_of_le_length within]
  split <;> rfl

/-- A declaration is read as it stands, unless the code ends before the name. -/
theorem readDeclared?_append {keyword : List Char} (parts : ∀ c ∈ keyword, isWordChar c = true)
    (named : ∀ after ∈ afterText? keyword code,
      ¬ ∀ glyph ∈ after, isAsciiBlank glyph.shown = true) :
    readDeclared? keyword (code ++ back) =
      (readDeclared? keyword code).map fun read => (read.1, read.2 ++ back) := by
  simp only [readDeclared?, afterText?_append behind parts code, Option.bind_eq_bind]
  cases found : afterText? keyword code with
  | none => rfl
  | some after =>
    -- White space behind the keyword ends where it ends without the code behind.
    have filled : after.dropWhile (fun glyph => isAsciiBlank glyph.shown) ≠ [] := by
      intro all
      exact named after found (by simpa using List.dropWhile_eq_nil_iff.mp all)
    have spaced : (after ++ back).dropWhile (fun glyph => isAsciiBlank glyph.shown) =
        after.dropWhile (fun glyph => isAsciiBlank glyph.shown) ++ back := by
      rw [List.dropWhile_append, if_neg (by simpa using filled)]
    simp only [Option.map_some, Option.bind_some, spaced, List.length_append,
      Nat.add_lt_add_iff_right]
    split
    · exact readName?_append behind _
    · rfl

end Reading

/-- What follows a text is the end of the code. -/
theorem afterText?_isSuffix {text : List Char} {code after : List Glyph}
    (found : afterText? text code = some after) : after <:+ code := by
  induction text generalizing code with
  | nil =>
    obtain rfl := Option.some.inj found
    exact List.suffix_refl code
  | cons c text ih =>
    cases code with
    | nil => cases found
    | cons glyph code =>
      -- Text and code are taken apart side by side, and only a match goes on.
      by_cases same : glyph.shown = c
      · rw [afterText?, if_pos same] at found
        exact (ih found).trans (List.suffix_cons glyph code)
      · rw [afterText?, if_neg same] at found
        cases found

/-- What follows a declared name is the end of the code. -/
theorem readDeclared?_isSuffix {keyword name : List Char} {code after : List Glyph}
    (found : readDeclared? keyword code = some (name, after)) : after <:+ code := by
  simp only [readDeclared?, Option.bind_eq_bind, Option.bind_eq_some_iff] at found
  obtain ⟨rest, behind, found⟩ := found
  -- The keyword, the spacing and the name are taken off the front, one after the other.
  split at found
  · rw [readName?] at found
    split at found
    · cases found
      exact (List.drop_suffix _ _).trans
        ((List.dropWhile_suffix _).trans (afterText?_isSuffix behind))
    · cases found
  · cases found

/-! Declarations. -/

namespace Declaration

/-- A declaration that is found is read behind what is in front of it, from one of the keywords on. -/
theorem exists_readDeclared {keywords : List (List Char)} {previous : Option Char}
    {code : List Glyph} {found : Declaration} (declared : find keywords previous code = some found) :
    ∃ keyword ∈ keywords, ∃ rest, code = found.before ++ rest ∧
      readDeclared? keyword rest = some (found.name, found.after) := by
  induction code generalizing previous found with
  | nil => cases declared
  | cons glyph rest ih =>
    simp only [find] at declared
    split at declared
    · rename_i name after here
      cases declared
      -- No keyword is read inside of a word.
      split at here
      · cases here
      · obtain ⟨keyword, listed, read⟩ := List.exists_of_findSome?_eq_some here
        exact ⟨keyword, listed, glyph :: rest, rfl, read⟩
    · obtain ⟨later, further, rfl⟩ := Option.map_eq_some_iff.mp declared
      obtain ⟨keyword, listed, left, whole, read⟩ := ih further
      exact ⟨keyword, listed, left, congrArg (glyph :: ·) whole, read⟩

/-- What follows a declaration that is found is the end of the code. -/
theorem find_isSuffix {keywords : List (List Char)} {previous : Option Char} {code : List Glyph}
    {found : Declaration} (declared : find keywords previous code = some found) :
    found.after <:+ code := by
  -- What is found was read somewhere in the code.
  obtain ⟨keyword, -, rest, whole, read⟩ := exists_readDeclared declared
  exact (readDeclared?_isSuffix read).trans ⟨found.before, whole.symm⟩

/-- What stands in front of a declaration that is found is the start of the code. -/
theorem find_isPrefix {keywords : List (List Char)} {previous : Option Char} {code : List Glyph}
    {found : Declaration} (declared : find keywords previous code = some found) :
    found.before <+: code := by
  -- The code is what stands in front of the declaration, and what it is read from.
  obtain ⟨keyword, -, rest, whole, -⟩ := exists_readDeclared declared
  exact ⟨rest, whole.symm⟩

/-- Whether code ends in one of several keywords, with white space behind it but no name. -/
def awaitsName (keywords : List (List Char)) (previous : Option Char) : List Glyph → Bool
  | [] => false
  | glyph :: rest =>
    (!previous.any isWordChar && keywords.any fun keyword =>
      (afterText? keyword (glyph :: rest)).any fun after =>
        after.all fun glyph => isAsciiBlank glyph.shown) ||
    awaitsName keywords (some glyph.shown) rest

/-- The character in front of what stands behind code. -/
def lastShown (previous : Option Char) (code : List Glyph) : Option Char :=
  (code.getLast?.map (·.shown)).or previous

/-- The character behind code is that behind its last glyph. -/
@[simp] theorem lastShown_cons (previous : Option Char) (glyph : Glyph) (rest : List Glyph) :
    lastShown previous (glyph :: rest) = lastShown (some glyph.shown) rest := by
  -- The last glyph of a longer rest is the last one of the whole.
  cases rest with
  | nil => rfl
  | cons next rest => simp [lastShown, List.getLast?_cons]

/-- Nothing is found in white space. -/
theorem find_blank {keywords : List (List Char)} (named : ∀ keyword ∈ keywords, IsName keyword)
    {code : List Glyph} (blank : ∀ glyph ∈ code, isAsciiBlank glyph.shown = true)
    (previous : Option Char) (rest : List Glyph) :
    find keywords previous (code ++ rest) =
      (find keywords (lastShown previous code) rest).map fun found =>
        { found with before := code ++ found.before } := by
  induction code generalizing previous with
  | nil => simp [lastShown]
  | cons glyph code ih =>
    obtain ⟨white, blank⟩ := List.forall_mem_cons.mp blank
    -- A keyword begins with a character of a word.
    have nothing : keywords.findSome? (readDeclared? · (glyph :: (code ++ rest))) = none := by
      rw [List.findSome?_eq_none_iff]
      intro keyword member
      cases word : keyword with
      | nil => exact absurd word (named keyword member).ne_nil
      | cons c more =>
        have isPart : isWordChar c = true := (named keyword member).parts c (by simp [word])
        have apart : glyph.shown ≠ c := by
          rintro rfl
          simp [isAsciiBlank_of_isWordChar isPart] at white
        simp [readDeclared?, afterText?, apart]
    simp [find, nothing, ih blank, Function.comp_def]

/-- What is in front of code matters only if a word could go on from there. -/
theorem find_congr {keywords : List (List Char)} {previous other : Option Char}
    (same : previous.any isWordChar = other.any isWordChar) (code : List Glyph) :
    find keywords previous code = find keywords other code := by
  -- Only the question whether a word goes on is asked of the character in front.
  cases code with
  | nil => rfl
  | cons glyph rest => simp only [find, same]

/-- A word with only white space behind it declares nothing. -/
theorem readDeclared?_awaited {keyword word : List Char} (named : IsName keyword)
    (parts : ∀ c ∈ word, isWordChar c = true) {code after : List Glyph}
    (behind : afterText? word code = some after)
    (blank : ∀ glyph ∈ after, isAsciiBlank glyph.shown = true) :
    readDeclared? keyword code = none := by
  by_contra declared
  obtain ⟨⟨name, left⟩, declared⟩ := Option.ne_none_iff_exists'.mp declared
  simp only [readDeclared?, Option.bind_eq_bind, Option.bind_eq_some_iff] at declared
  obtain ⟨rest, keywordRead, declared⟩ := declared
  -- Keyword and word begin the same code, so one of them begins the other one.
  have whole := (shownText_of_afterText? keywordRead).symm.trans (shownText_of_afterText? behind)
  have blank : ∀ c ∈ Glyph.shownText after, isAsciiBlank c = true := by
    simpa [Glyph.shownText] using blank
  cases rest with
  | nil => simp at declared
  | cons first rest =>
    split at declared
    case isFalse => cases declared
    case isTrue shorter =>
    have white : isAsciiBlank first.shown = true := by
      by_contra visible
      have stays : (first :: rest).dropWhile (fun glyph => isAsciiBlank glyph.shown) =
          first :: rest := List.dropWhile_cons_of_neg visible
      rw [stays] at shorter
      exact Nat.lt_irrefl _ shorter
    -- The word ends at the first white space, and so does the keyword.
    have same : Glyph.shownText after = Glyph.shownText (first :: rest) := by
      rcases List.append_eq_append_iff.mp whole with ⟨more, longer, split⟩ | ⟨more, longer, split⟩
      · cases more with
        | nil => simpa using split.symm
        | cons c more =>
          obtain ⟨rfl, -⟩ := List.cons.inj split
          have part : isWordChar first.shown = true := parts _ (by simp [longer])
          simp [isAsciiBlank_of_isWordChar part] at white
      · cases more with
        | nil => simpa using split
        | cons c more =>
          have part : isWordChar c = true := named.parts c (by simp [longer])
          have white := blank c (by simp [split])
          simp [isAsciiBlank_of_isWordChar part] at white
    have all : ∀ glyph ∈ first :: rest, isAsciiBlank glyph.shown = true := by
      intro glyph member
      refine blank _ (same ▸ ?_)
      exact List.mem_map_of_mem member
    rw [List.dropWhile_eq_nil_iff.mpr all] at declared
    simp [readName?, Glyph.shownText] at declared

/-- No declaration is found from a keyword on that has only white space behind it. -/
theorem find_awaited {keywords : List (List Char)} (named : ∀ keyword ∈ keywords, IsName keyword)
    {word : List Char} (parts : ∀ c ∈ word, isWordChar c = true) {code after : List Glyph}
    (behind : afterText? word code = some after)
    (blank : ∀ glyph ∈ after, isAsciiBlank glyph.shown = true) (previous : Option Char) :
    find keywords previous code = none := by
  induction word generalizing code previous with
  | nil =>
    obtain rfl := Option.some.inj behind
    have nothing := find_blank named blank previous []
    rw [List.append_nil] at nothing
    rw [nothing]
    rfl
  | cons c word ih =>
    cases code with
    | nil => cases behind
    | cons glyph code =>
      -- Neither the word nor any end of it has a name behind it.
      have here : keywords.findSome? (readDeclared? · (glyph :: code)) = none := by
        rw [List.findSome?_eq_none_iff]
        intro keyword member
        exact readDeclared?_awaited (named keyword member) parts behind blank
      by_cases same : glyph.shown = c
      · rw [afterText?, if_pos same] at behind
        have later := ih (List.forall_mem_cons.mp parts).2 behind (some glyph.shown)
        simp [find, here, later]
      · rw [afterText?, if_neg same] at behind
        cases behind

section Behind

variable {keywords : List (List Char)} (named : ∀ keyword ∈ keywords, IsName keyword)
  {back : List Glyph} (behind : Glyph.IsBehind back)
include named behind

/-- A declaration at the start of code is read as it stands, if no keyword there awaits a name. -/
theorem findSome?_append {code : List Glyph}
    (complete : ∀ keyword ∈ keywords, ∀ after ∈ afterText? keyword code,
      ¬ ∀ glyph ∈ after, isAsciiBlank glyph.shown = true) :
    keywords.findSome? (readDeclared? · (code ++ back)) =
      (keywords.findSome? (readDeclared? · code)).map fun read => (read.1, read.2 ++ back) := by
  induction keywords with
  | nil => rfl
  | cons keyword keywords ih =>
    obtain ⟨isName, named⟩ := List.forall_mem_cons.mp named
    obtain ⟨here, complete⟩ := List.forall_mem_cons.mp complete
    -- Each keyword is tried on the same code, and none of them reads into what is behind.
    rw [List.findSome?_cons, List.findSome?_cons, readDeclared?_append behind isName.parts here,
      ih named complete]
    cases readDeclared? keyword code <;> rfl

/-- A declaration is found as it stands, whatever stands behind. -/
theorem find_append_some {previous : Option Char} {code : List Glyph} {found : Declaration}
    (declared : find keywords previous code = some found) :
    find keywords previous (code ++ back) = some { found with after := found.after ++ back } := by
  induction code generalizing previous found with
  | nil => cases declared
  | cons glyph rest ih =>
    -- A keyword here with no name behind it would leave nothing to find.
    have complete : ∀ keyword ∈ keywords, ∀ after ∈ afterText? keyword (glyph :: rest),
        ¬ ∀ glyph ∈ after, isAsciiBlank glyph.shown = true := by
      intro keyword member after isAfter blank
      rw [find_awaited named (named keyword member).parts isAfter blank] at declared
      cases declared
    have here := findSome?_append named behind complete
    rw [List.cons_append] at here ⊢
    rw [find] at declared ⊢
    -- What is found here or further on is found there with the code behind, too.
    by_cases inWord : previous.any isWordChar = true
    · simp only [inWord, if_true, Option.map_eq_some_iff] at declared ⊢
      obtain ⟨later, declared, rfl⟩ := declared
      exact ⟨_, ih declared, rfl⟩
    · simp only [inWord, if_false, Bool.false_eq_true, here] at declared ⊢
      cases read : keywords.findSome? (readDeclared? · (glyph :: rest)) with
      | some one =>
        rw [read] at declared
        obtain rfl := Option.some.inj declared
        rfl
      | none =>
        simp only [read, Option.map_none, Option.map_eq_some_iff] at declared ⊢
        obtain ⟨later, declared, rfl⟩ := declared
        exact ⟨_, ih declared, rfl⟩

/-- A search that found nothing goes on behind, unless a keyword awaits its name. -/
theorem find_append_none {previous : Option Char} {code : List Glyph}
    (nothing : find keywords previous code = none)
    (complete : awaitsName keywords previous code = false) :
    find keywords previous (code ++ back) =
      (find keywords (lastShown previous code) back).map fun found =>
        { found with before := code ++ found.before } := by
  induction code generalizing previous with
  | nil => simp [lastShown]
  | cons glyph rest ih =>
    rw [awaitsName, Bool.or_eq_false_iff] at complete
    obtain ⟨completeHere, complete⟩ := complete
    rw [find] at nothing
    rw [List.cons_append, find, lastShown_cons]
    -- From here on both searches do the same, one with this glyph in front of what is found.
    have goesOn (later : find keywords (some glyph.shown) rest = none) :
        (find keywords (some glyph.shown) (rest ++ back)).map (fun found =>
            { found with before := glyph :: found.before }) =
          (find keywords (lastShown (some glyph.shown) rest) back).map fun found =>
            { found with before := glyph :: (rest ++ found.before) } := by
      rw [ih later complete, Option.map_map]
      rfl
    by_cases inWord : previous.any isWordChar = true
    · simp only [inWord, if_true, Option.map_eq_none_iff] at nothing ⊢
      exact goesOn nothing
    · have completeHere : ∀ keyword ∈ keywords, ∀ after ∈ afterText? keyword (glyph :: rest),
          ¬ ∀ glyph ∈ after, isAsciiBlank glyph.shown = true := by
        intro keyword member after isAfter blank
        simp only [inWord, Bool.not_false, Bool.true_and, List.any_eq_false] at completeHere
        refine completeHere keyword member ?_
        rw [Option.mem_def.mp isAfter]
        simpa using blank
      -- No keyword is cut short here, so nothing is declared across the seam.
      have here := findSome?_append named behind completeHere
      rw [List.cons_append] at here
      simp only [inWord, if_false, Bool.false_eq_true, here] at nothing ⊢
      cases read : keywords.findSome? (readDeclared? · (glyph :: rest)) with
      | some one =>
        rw [read] at nothing
        cases nothing
      | none =>
        simp only [read, Option.map_none, Option.map_eq_none_iff] at nothing ⊢
        exact goesOn nothing

end Behind

/-- Behind code that declares nothing, code on lines of its own declares what it does by itself. -/
theorem find_lineBreaks {keywords : List (List Char)}
    (named : ∀ keyword ∈ keywords, IsName keyword) {front code : List Glyph} {gap : Nat}
    (apart : gap = 0 → code = []) (nothing : find keywords none front = none)
    (complete : awaitsName keywords none front = false) :
    find keywords none (front ++ (List.replicate gap (Glyph.plain '\n') ++ code)) =
      (find keywords none code).map fun found =>
        { found with
          before := front ++ (List.replicate gap (Glyph.plain '\n') ++ found.before) } := by
  rw [find_append_none named (Glyph.isBehind_lineBreaks apart) nothing complete]
  cases gap with
  | zero => simp [apart rfl, find]
  | succ gap =>
    have blank : ∀ glyph ∈ List.replicate (gap + 1) (Glyph.plain '\n'),
        isAsciiBlank glyph.shown = true := by
      intro glyph member
      rw [(List.mem_replicate.mp member).2]
      decide
    have last : lastShown (lastShown none front) (List.replicate (gap + 1) (Glyph.plain '\n')) =
        some '\n' := by
      simp [lastShown, List.getLast?_replicate, Glyph.plain, Glyph.shown]
    -- No word goes on behind a line break, and none does at the start of code.
    have fresh : find keywords (some '\n') code = find keywords none code :=
      find_congr (by decide) code
    rw [find_blank named blank, last, fresh, Option.map_map]
    rfl

end Declaration

/-! Annotations. -/

namespace AnnotationUse

section Behind

variable {back : List Glyph} (behind : Glyph.IsBehind back)
include behind

/-- A whole word ends in front of what stands behind. -/
theorem afterWord?_append {word : List Char} (parts : ∀ c ∈ word, isWordChar c = true)
    (code : List Glyph) :
    afterWord? word (code ++ back) = (afterWord? word code).map (· ++ back) := by
  simp only [afterWord?, afterText?_append behind parts, Option.bind_eq_bind]
  cases afterText? word code with
  | none => rfl
  | some rest =>
    cases rest with
    -- At the end of the code the word is whole, as no part of one stands behind.
    | nil =>
      have stops := behind.any_eq_false (p := isWordChar) (by decide)
      simp [stops]
    | cons glyph rest =>
      by_cases goesOn : isWordChar glyph.shown = true
      · simp [goesOn]
      · simp [goesOn]

/-- A dotted name ends in front of what stands behind. -/
theorem afterLastDotted?_append {word : List Char} (parts : ∀ c ∈ word, isWordChar c = true)
    (code : List Glyph) :
    afterLastDotted? word (code ++ back) = (afterLastDotted? word code).map (· ++ back) := by
  induction code with
  | nil =>
    cases back with
    | nil => rfl
    | cons glyph back =>
      -- Neither a word nor a dot stands behind, so the dotted name does not go on.
      have stop : (isWordChar glyph.shown || decide (glyph.shown = '.')) = false :=
        behind.stops (p := fun c => isWordChar c || decide (c = '.')) (by decide) glyph rfl
      simp [afterLastDotted?, stop]
  | cons glyph rest ih =>
    simp only [List.cons_append, afterLastDotted?, ih, afterWord?_append behind parts]
    split
    · cases afterLastDotted? word rest with
      | none =>
        simp only [Option.map_none, Option.none_or]
        split <;> rfl
      | some after => rfl
    · rfl

/-- An annotation of a given name is read as it stands. -/
theorem afterMarker?_append {word : List Char} (parts : ∀ c ∈ word, isWordChar c = true)
    (code : List Glyph) :
    afterMarker? word (code ++ back) = (afterMarker? word code).map (· ++ back) := by
  cases code with
  | nil =>
    cases back with
    | nil => rfl
    | cons glyph back =>
      have apart : glyph.shown ≠ '@' := by
        simpa using behind.stops (p := fun c => decide (c = '@')) (by decide) glyph rfl
      simp [afterMarker?, apart]
  | cons glyph rest =>
    -- A sign at the end of the code has no name behind it, with or without what follows.
    have start : (((rest ++ back).head?.map (·.shown)).any isNameStart) =
        ((rest.head?.map (·.shown)).any isNameStart) := by
      cases rest with
      | nil => exact behind.any_eq_false (by decide)
      | cons next rest => rfl
    simp only [List.cons_append, afterMarker?, start, afterLastDotted?_append behind parts,
      afterWord?_append behind parts]
    split
    · split
      · cases afterLastDotted? word rest <;> rfl
      · rfl
    · rfl

/-- An annotation is found as it stands, whatever stands behind. -/
theorem findMarker_append_some {word : List Char} (parts : ∀ c ∈ word, isWordChar c = true)
    {code before after : List Glyph} (found : findMarker word code = some (before, after)) :
    findMarker word (code ++ back) = some (before, after ++ back) := by
  induction code generalizing before after with
  | nil => cases found
  | cons glyph rest ih =>
    have here := afterMarker?_append behind parts (glyph :: rest)
    rw [List.cons_append] at here ⊢
    simp only [findMarker, here] at found ⊢
    -- Where it is found the first time, it is found with more behind it as well.
    cases read : afterMarker? word (glyph :: rest) with
    | some after =>
      rw [read] at found
      obtain ⟨rfl, rfl⟩ := Prod.mk.inj (Option.some.inj found)
      rfl
    | none =>
      simp only [read, Option.map_none, Option.map_eq_some_iff, Prod.mk.injEq] at found ⊢
      obtain ⟨⟨front, back⟩, found, rfl, rfl⟩ := found
      exact ⟨_, ih found, rfl, rfl⟩

end Behind

/-- What follows a whole word is the end of the code. -/
theorem afterWord?_isSuffix {word : List Char} {code after : List Glyph}
    (found : afterWord? word code = some after) : after <:+ code := by
  simp only [afterWord?, Option.bind_eq_bind, Option.bind_eq_some_iff] at found
  obtain ⟨rest, read, found⟩ := found
  -- The word is read as a text, and it is whole if none goes on behind.
  split at found
  · cases found
  · obtain rfl := Option.some.inj found
    exact afterText?_isSuffix read

/-- What follows a dotted name is the end of the code. -/
theorem afterLastDotted?_isSuffix {word : List Char} {code after : List Glyph}
    (found : afterLastDotted? word code = some after) : after <:+ code := by
  induction code generalizing after with
  | nil => cases found
  | cons glyph rest ih =>
    refine List.IsSuffix.trans ?_ (List.suffix_cons glyph rest)
    rw [afterLastDotted?] at found
    split at found
    -- The place is further on, or right behind this dot.
    · rcases Option.or_eq_some_iff.mp found with later | ⟨-, here⟩
      · exact ih later
      · split at here
        · exact afterWord?_isSuffix here
        · cases here
    · cases found

/-- What follows an annotation of a given name is the end of the code. -/
theorem afterMarker?_isSuffix {word : List Char} {code after : List Glyph}
    (found : afterMarker? word code = some after) : after <:+ code := by
  cases code with
  | nil => cases found
  | cons glyph rest =>
    rw [afterMarker?] at found
    split at found
    · -- The sign is taken off, and then the name, with others and dots in front or without.
      refine List.IsSuffix.trans ?_ (List.suffix_cons glyph rest)
      rcases Option.or_eq_some_iff.mp found with dotted | ⟨-, plain⟩
      · split at dotted
        · exact afterLastDotted?_isSuffix dotted
        · cases dotted
      · exact afterWord?_isSuffix plain
    · cases found

/-- What follows an annotation that is found is the end of the code. -/
theorem findMarker_isSuffix {word : List Char} {code before after : List Glyph}
    (found : findMarker word code = some (before, after)) : after <:+ code := by
  induction code generalizing before with
  | nil => cases found
  | cons glyph rest ih =>
    simp only [findMarker] at found
    -- The annotation is here, or it is found in the rest.
    split at found
    · rename_i here
      cases found
      exact afterMarker?_isSuffix here
    · obtain ⟨⟨front, back⟩, later, same⟩ := Option.map_eq_some_iff.mp found
      obtain ⟨-, rfl⟩ := Prod.mk.inj same
      exact (ih later).trans (List.suffix_cons glyph rest)

end AnnotationUse

end IndexAudit
