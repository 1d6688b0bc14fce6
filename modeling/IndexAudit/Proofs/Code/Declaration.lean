import IndexAudit.Code.Declaration
import IndexAudit.Proofs.Text.Blank

/-!
Keywords, names and annotations of a given name are found where they are written.

A search passes over code in which what it looks for cannot begin.
-/

namespace IndexAudit

/-- A name of ASCII letters, digits and underscores that begins with no digit. -/
structure IsName (name : List Char) : Prop where
  starts : name.head?.any isNameStart = true
  parts : ∀ c ∈ name, isWordChar c = true

/-- ASCII white space is no part of a word. -/
theorem isWordChar_of_isAsciiBlank {c : Char} (white : isAsciiBlank c = true) :
    isWordChar c = false := by
  -- There are six such characters, and each is looked at.
  simp only [isAsciiBlank, isSpacing, Bool.or_eq_true, decide_eq_true_eq] at white
  rcases white with ((((is | is) | is) | is) | is) | is <;> rw [is] <;> decide

/-- A character of a word is no ASCII white space. -/
theorem isAsciiBlank_of_isWordChar {c : Char} (word : isWordChar c = true) :
    isAsciiBlank c = false := by
  -- Were it white space, it would be no part of a word.
  by_contra white
  simp [isWordChar_of_isAsciiBlank (by simpa using white)] at word

namespace IsName

variable {name : List Char}

/-- A name has a first character. -/
theorem ne_nil (named : IsName name) : name ≠ [] := by
  -- An empty name would have no first character that starts it.
  rintro rfl
  exact absurd named.starts (by simp)

/-- A text that ends in a name ends in a character of a word. -/
theorem getLast?_append (named : IsName name) (front : List Char) :
    ∀ c ∈ (front ++ name).getLast?, isWordChar c = true := by
  -- The name is not empty, so the last character is one of its own.
  intro c last
  refine named.parts c (List.mem_of_mem_getLast? ?_)
  simpa [named.ne_nil] using last

/-- A name begins with no digit. -/
theorem no_digit (named : IsName name) : ∀ c ∈ name.head?, c.isDigit = false := by
  intro c first
  have start : isNameStart c = true := by simpa [Option.mem_def.mp first] using named.starts
  by_contra digit
  unfold isNameStart Char.isAlpha Char.isUpper Char.isLower at start
  unfold Char.isDigit at digit
  simp only [Bool.or_eq_true, Bool.and_eq_true, decide_eq_true_eq, Bool.not_eq_false] at start digit
  obtain ⟨-, high⟩ := digit
  -- Digits lie below the letters of both cases and the underscore.
  rcases start with (⟨low, -⟩ | ⟨low, -⟩) | rfl
  · exact absurd (UInt32.le_trans low high) (by decide)
  · exact absurd (UInt32.le_trans low high) (by decide)
  · exact absurd high (by decide)

/-- A name is read up to where no character of a word comes. -/
theorem readName?_eq (named : IsName name) {rest : List Glyph}
    (stop : ∀ glyph ∈ rest.head?, isWordChar glyph.shown = false) :
    readName? (name.map Glyph.plain ++ rest) = some (name, rest) := by
  have shown : Glyph.shownText (name.map Glyph.plain ++ rest) = name ++ Glyph.shownText rest := by
    simp
  -- What is seen of the rest begins with what its first glyph shows.
  have taken : (name ++ Glyph.shownText rest).takeWhile isWordChar = name := by
    refine takeWhile_stop named.parts fun d first => ?_
    obtain ⟨glyph, isFirst, rfl⟩ : ∃ glyph ∈ rest.head?, glyph.shown = d := by
      simpa [Glyph.shownText] using first
    exact stop glyph isFirst
  rw [readName?, shown, taken, if_pos named.starts]
  simp

/-- A name is read at the end of a text, in front of which no character of a word comes. -/
theorem trailingName?_eq (named : IsName name) {front : List Char}
    (stop : ∀ c ∈ front.getLast?, isWordChar c = false) :
    trailingName? (front ++ name) = some (front, name) := by
  have kept : dropEndWhile isAsciiBlank (front ++ name) = front ++ name :=
    dropEndWhile_eq fun c last => isAsciiBlank_of_isWordChar (named.getLast?_append front c last)
  -- Read from its end, the text goes on with the name up to what stands in front of it.
  have word : ((front ++ name).reverse.takeWhile isWordChar).reverse = name := by
    rw [List.reverse_append, takeWhile_stop (by simpa using named.parts) (by simpa using stop),
      List.reverse_reverse]
  have whole : name.dropWhile Char.isDigit = name :=
    dropWhile_eq named.no_digit
  simp only [trailingName?, kept, word, whole]
  simp [named.ne_nil]

end IsName

/-! Keywords. -/

/-- A text at the start of code is read. -/
@[simp] theorem afterText?_plain (text : List Char) (rest : List Glyph) :
    afterText? text (text.map Glyph.plain ++ rest) = some rest := by
  -- Each character of the text is seen as it is, one after the other.
  induction text with
  | nil => rfl
  | cons c text ih => simpa [afterText?, Glyph.plain, Glyph.shown] using ih

/-- What is read as a text is seen as that text. -/
theorem shownText_of_afterText? {text : List Char} {code rest : List Glyph}
    (found : afterText? text code = some rest) :
    Glyph.shownText code = text ++ Glyph.shownText rest := by
  -- The text and the code are read side by side.
  induction text generalizing code with
  | nil =>
    cases found
    rfl
  | cons c text ih =>
    cases code with
    | nil => cases found
    | cons glyph code =>
      by_cases same : glyph.shown = c
      · rw [afterText?, if_pos same] at found
        simp [Glyph.shownText, same, show code.map (·.shown) = _ from ih found]
      · rw [afterText?, if_neg same] at found
        cases found

/-- A name is read behind a keyword and white space. -/
theorem readDeclared?_eq {name : List Char} (named : IsName name) (keyword : List Char)
    {gap : List Char} (filled : gap ≠ []) (white : ∀ c ∈ gap, isAsciiBlank c = true)
    {rest : List Glyph} (stop : ∀ glyph ∈ rest.head?, isWordChar glyph.shown = false) :
    readDeclared? keyword
      (keyword.map Glyph.plain ++ (gap.map Glyph.plain ++ (name.map Glyph.plain ++ rest))) =
      some (name, rest) := by
  have visible : (name.map Glyph.plain ++ rest).dropWhile
      (fun glyph => isAsciiBlank glyph.shown) = name.map Glyph.plain ++ rest := by
    match name, named with
    | [], named => exact absurd rfl named.ne_nil
    | c :: name, named =>
      exact List.dropWhile_cons_of_neg
        (by simp [Glyph.plain, Glyph.shown, isAsciiBlank_of_isWordChar (named.parts c (by simp))])
  have spaced : (gap.map Glyph.plain ++ (name.map Glyph.plain ++ rest)).dropWhile
      (fun glyph => isAsciiBlank glyph.shown) = name.map Glyph.plain ++ rest := by
    rw [List.dropWhile_append_of_pos, visible]
    intro glyph member
    obtain ⟨c, isChar, rfl⟩ := List.mem_map.mp member
    exact white c isChar
  -- The white space behind the keyword is not empty.
  have shorter : 0 < gap.length := List.length_pos_iff.mpr filled
  simp [readDeclared?, spaced, named.readName?_eq stop, shorter]

/-- White space comes behind a keyword with a name. -/
theorem shownText_of_readDeclared? {keyword : List Char} {code : List Glyph}
    (found : (readDeclared? keyword code).isSome = true) :
    ∃ c rest, isAsciiBlank c = true ∧ Glyph.shownText code = keyword ++ c :: rest := by
  obtain ⟨declared, found⟩ := Option.isSome_iff_exists.mp found
  simp only [readDeclared?, Option.bind_eq_bind, Option.bind_eq_some_iff] at found
  obtain ⟨rest, behind, named⟩ := found
  cases rest with
  | nil => simp at named
  | cons glyph rest =>
    refine ⟨glyph.shown, Glyph.shownText rest, ?_, shownText_of_afterText? behind⟩
    -- Without white space nothing is dropped, and then no name is read.
    by_contra visible
    have stays : (glyph :: rest).dropWhile (fun glyph => isAsciiBlank glyph.shown) =
        glyph :: rest := List.dropWhile_cons_of_neg visible
    rw [stays, if_neg (Nat.lt_irrefl _)] at named
    cases named

namespace Declaration

/-- A search for a keyword passes over code in which it cannot begin. -/
theorem find_passed {c : Char} (word : List Char) {front : List Glyph} {last : Glyph}
    (apart : ∀ glyph ∈ front ++ [last], glyph.shown ≠ c) (previous : Option Char)
    (rest : List Glyph) :
    find [c :: word] previous (front ++ last :: rest) =
      (find [c :: word] (some last.shown) rest).map fun found =>
        { found with before := front ++ last :: found.before } := by
  have nothing {glyph : Glyph} (other : glyph.shown ≠ c) (code : List Glyph) :
      [c :: word].findSome? (readDeclared? · (glyph :: code)) = none := by
    simp [readDeclared?, afterText?, other]
  -- The glyph in front of the search changes with each step, so it stays general.
  induction front generalizing previous with
  | nil => simp [find, nothing (apart last (by simp))]
  | cons glyph front ih =>
    have later := ih (fun other member => apart other (by simp_all)) (some glyph.shown)
    rw [List.cons_append, find]
    simp [nothing (apart glyph (by simp)), later, Function.comp_def]

/-- A keyword with a name is found at the start of code, if no word goes on there. -/
theorem find_here (c : Char) (word : List Char) {name : List Char} (named : IsName name)
    {previous : Option Char} (start : previous.any isWordChar = false) {rest : List Glyph}
    (stop : ∀ glyph ∈ rest.head?, isWordChar glyph.shown = false) :
    find [c :: word] previous
      ((c :: word).map Glyph.plain ++ Glyph.plain ' ' :: (name.map Glyph.plain ++ rest)) =
      some ⟨[], name, rest⟩ := by
  -- The space and the name behind the keyword are read, so it is not looked for any further.
  have filled : [' '] ≠ [] := by decide
  have declared := readDeclared?_eq named (c :: word) filled (by decide) stop
  rw [List.map_singleton, List.singleton_append] at declared
  rw [List.map_cons, List.cons_append] at declared ⊢
  simp [find, start, declared]

end Declaration

/-! Annotations of a given name. -/

namespace AnnotationUse

variable {word : List Char}

/-- A name without dots in it is not qualified. -/
theorem afterLastDotted?_plain {name : List Char} {rest : List Glyph}
    (parts : ∀ c ∈ name, c ≠ '.')
    (stop : ∀ glyph ∈ rest.head?, isWordChar glyph.shown = false ∧ glyph.shown ≠ '.') :
    afterLastDotted? word (name.map Glyph.plain ++ rest) = none := by
  induction name with
  | nil =>
    -- What stops the name is no part of a dotted one either.
    cases rest with
    | nil => rfl
    | cons glyph rest => simp [afterLastDotted?, stop glyph rfl]
  | cons c name ih =>
    obtain ⟨noDot, parts⟩ := List.forall_mem_cons.mp parts
    simp [afterLastDotted?, ih parts, noDot, Glyph.plain, Glyph.shown]

/-- An annotation is found by its name. -/
theorem afterMarker?_plain (named : IsName word) (rest : List Glyph)
    (stop : ∀ glyph ∈ rest.head?, isWordChar glyph.shown = false ∧ glyph.shown ≠ '.') :
    afterMarker? word (Glyph.plain '@' :: (word.map Glyph.plain ++ rest)) = some rest := by
  -- A qualified name is tried first, and the name has no dot.
  have unqualified : afterLastDotted? word (word.map Glyph.plain ++ rest) = none := by
    refine afterLastDotted?_plain (fun c member => ?_) stop
    rintro rfl
    exact absurd (named.parts '.' member) (by decide)
  have whole : afterWord? word (word.map Glyph.plain ++ rest) = some rest := by
    have ends : (rest.head?.map (·.shown)).any isWordChar = false := by
      cases rest with
      | nil => rfl
      | cons glyph rest => simpa using (stop glyph rfl).1
    simp [afterWord?, ends]
  simp [afterMarker?, unqualified, whole, Glyph.plain, Glyph.shown]

/-- No annotation is found where there is no at sign. -/
theorem lastMarkerIndex?_none {code : List Glyph} (apart : ∀ glyph ∈ code, glyph.shown ≠ '@') :
    lastMarkerIndex? word code = none := by
  -- No place in the code has the sign that an annotation begins with.
  induction code with
  | nil => rfl
  | cons glyph rest ih =>
    obtain ⟨here, later⟩ := List.forall_mem_cons.mp apart
    simp [lastMarkerIndex?, ih later, afterMarker?, here]

/-- The last annotation of a name is found behind whatever comes in front. -/
theorem lastMarkerIndex?_append {code : List Glyph} {index : Nat}
    (found : lastMarkerIndex? word code = some index) (front : List Glyph) :
    lastMarkerIndex? word (front ++ code) = some (front.length + index) := by
  induction front with
  | nil => simpa using found
  | cons glyph front ih =>
    simp only [List.cons_append, lastMarkerIndex?, ih, List.length_cons]
    -- What is found behind the first glyph is found one place further on.
    congr 1
    omega

end AnnotationUse

end IndexAudit
