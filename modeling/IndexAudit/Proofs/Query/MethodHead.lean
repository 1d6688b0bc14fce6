import IndexAudit.Proofs.Query.Waiting

/-!
A method is known by the name in front of its parameters.

What stands in front of the name is the word `fun` or a type, behind modifiers.
-/

namespace IndexAudit

namespace Member

/-- Code on one line in which brackets match and no member ends. -/
structure IsInline (code : List Char) : Prop extends Glyph.IsCode false true code where
  inLine : '\n' ∉ code
  whole : ∀ c ∈ Entity.seen code, c ≠ ';' ∧ c ≠ '\x7b'

/-- What may stand in front of the name of a method: `fun`, or the type that it returns. -/
structure IsLead (lead : List Char) : Prop extends IsInline lead where
  filled : Entity.seen lead ≠ []
  starts : ∀ c ∈ (Entity.seen lead).head?, isBlank c = false ∧ c ≠ '@'
  ends : ∀ c ∈ (Entity.seen lead).getLast?, isBlank c = false
  flat : ∀ c ∈ Entity.seen lead, c ≠ '(' ∧ c ≠ ':' ∧ c ≠ '='

/-- Modifiers as they are written, with a space behind each of them. -/
def modifierText (chosen : List String) : List Char :=
  chosen.flatMap fun modifier => modifier.toList ++ [' ']

/-! How a declaration begins. -/

/-- A modifier is a name. -/
theorem isName_of_mem_modifiers {modifier : String} (listed : modifier ∈ modifiers) :
    IsName modifier.toList := by
  -- The list of modifiers is fixed, so each of them is looked at.
  have each : ∀ modifier ∈ modifiers, modifier.toList.head?.any isNameStart = true ∧
      ∀ c ∈ modifier.toList, isWordChar c = true := by decide
  exact ⟨(each modifier listed).1, (each modifier listed).2⟩

/-- A name begins a member, whatever comes behind it. -/
theorem beginsMember_name {name : List Char} (named : IsName name) (rest : List Char) :
    BeginsMember (name ++ rest) := by
  -- The first character of a name tells, and it belongs to a word.
  obtain ⟨c, name, rfl⟩ := List.exists_cons_of_ne_nil named.ne_nil
  have word := named.parts c (by simp)
  have visible := isBlank_of_isWordChar word
  have apart : c ≠ '@' ∧ c ≠ '(' := by
    constructor <;> (rintro rfl; exact absurd word (by decide))
  simp [BeginsMember, visible, apart]

/-- Modifiers begin a member if what stands behind them does. -/
theorem beginsMember_modifiers {chosen : List String}
    (listed : ∀ modifier ∈ chosen, modifier ∈ modifiers) {rest : List Char}
    (begins : BeginsMember rest) : BeginsMember (modifierText chosen ++ rest) := by
  -- The first modifier is a name, and without modifiers nothing stands in front.
  cases chosen with
  | nil => exact begins
  | cons modifier chosen =>
    have named := isName_of_mem_modifiers (listed modifier (by simp))
    have shape : modifierText (modifier :: chosen) ++ rest =
        modifier.toList ++ (' ' :: (modifierText chosen ++ rest)) := by simp [modifierText]
    rw [shape]
    exact beginsMember_name named _

/-- A character of modifiers belongs to a word or is a space. -/
theorem mem_modifierText {chosen : List String}
    (listed : ∀ modifier ∈ chosen, modifier ∈ modifiers) {c : Char}
    (member : c ∈ modifierText chosen) : isWordChar c = true ∨ c = ' ' := by
  -- A modifier is a name with a space behind it.
  obtain ⟨modifier, isChosen, inModifier⟩ := List.mem_flatMap.mp member
  refine (List.mem_append.mp inModifier).imp (fun inWord => ?_) List.mem_singleton.mp
  exact (isName_of_mem_modifiers (listed modifier isChosen)).parts c inWord

/-- Names and spaces hold none of the characters that end a member or its name. -/
theorem apart_of_isWordChar {c : Char} (word : isWordChar c = true ∨ c = ' ') :
    c ∉ '\n' :: closingChars := by
  rintro listed
  -- These are few characters, and none of them belongs to a word.
  have each : ∀ d ∈ '\n' :: closingChars, ¬ (isWordChar d = true ∨ d = ' ') := by decide
  exact each c listed word

/-- No member ends in names and spaces. -/
theorem noEnd_of_isWordChar {c : Char} (word : isWordChar c = true ∨ c = ' ') :
    c ≠ ';' ∧ c ≠ '\n' := by
  -- Both are among the characters just listed.
  have apart := apart_of_isWordChar word
  simp only [closingChars, List.mem_cons, not_or] at apart
  exact ⟨apart.2.2.2.2.1, apart.1⟩

/-! Code on one line. -/

section Inline

variable {code : List Char}

/-- No member ends in code on one line. -/
theorem IsInline.stays (isInline : IsInline code) : Segment.Stays 0 (Glyph.ofCode code) := by
  -- Each character is seen at depth zero, so none of them may end a member.
  refine .inr fun glyph member => ?_
  obtain ⟨noEnd, noBlock⟩ := isInline.whole glyph.shown (List.mem_map.mpr ⟨glyph, member, rfl⟩)
  exact ⟨noEnd, fun lineBreak =>
    isInline.inLine (isInline.spelled.mem_of_shown member lineBreak (by decide)), noBlock⟩

/-- A search sees no line break in code on one line. -/
theorem IsInline.notMem_seen (isInline : IsInline code) : '\n' ∉ Entity.seen code := by
  -- A line break that is seen is one that is written.
  intro member
  obtain ⟨glyph, inCode, lineBreak⟩ := List.mem_map.mp member
  exact isInline.inLine (isInline.spelled.mem_of_shown inCode lineBreak (by decide))

/-- Flat text in which no member ends is code on one line. -/
theorem isInline_flat (flat : ∀ c ∈ code, Glyph.IsFlat c)
    (within : ∀ c ∈ code, c ≠ ';' ∧ c ≠ '\n') : IsInline code := by
  -- Flat text holds no literal, so it is seen as it is, and none of its brackets opens a block.
  have isCode : Glyph.IsCode false true code := (Glyph.isCode_flat flat).withCommas
  have writes : Glyph.Writes false false (code.map Glyph.plain) code [] :=
    Glyph.writes_flat code flat
  have seen : Entity.seen code = code := by
    rw [Entity.seen, writes.spelled.ofCode_eq, Glyph.shownText_plain]
  refine ⟨isCode, fun lineBreak => (within _ lineBreak).2 rfl, fun c member => ?_⟩
  rw [seen] at member
  refine ⟨(within c member).1, fun opens => flat c member ?_⟩
  simp [opens]

/-- A lead begins a member, whatever comes behind it. -/
theorem IsLead.begins {lead : List Char} (isLead : IsLead lead) (rest : List Char) :
    BeginsMember (Entity.seen lead ++ rest) := by
  -- The first character of the lead tells, and it is neither a sign nor a bracket.
  obtain ⟨c, more, seen⟩ := List.exists_cons_of_ne_nil isLead.filled
  obtain ⟨visible, noSign⟩ := isLead.starts c (by simp [seen])
  have noRound := (isLead.flat c (by simp [seen])).1
  simp [BeginsMember, seen, visible, noSign, noRound]

end Inline

/-! The words of a declaration. -/

section Words

variable {chosen : List String}

/-- Modifiers are words of the text that they begin. -/
theorem words_modifiers (listed : ∀ modifier ∈ chosen, modifier ∈ modifiers) {rest : List Char}
    (visible : ∀ c ∈ rest.head?, isBlank c = false) :
    words (modifierText chosen ++ rest) = chosen.map String.toList ++ words rest := by
  induction chosen with
  | nil => rfl
  | cons modifier chosen ih =>
    obtain ⟨here, later⟩ := List.forall_mem_cons.mp listed
    have named := isName_of_mem_modifiers here
    have word : ∀ c ∈ modifier.toList, isBlank c = false := fun c member =>
      isBlank_of_isWordChar (named.parts c member)
    have behind : ∀ d ∈ (modifierText chosen ++ rest).head?, isBlank d = false := by
      cases chosen with
      | nil => exact visible
      | cons next chosen =>
        have named := isName_of_mem_modifiers (later next (by simp))
        intro d first
        refine isBlank_of_isWordChar (named.parts d ?_)
        obtain ⟨c, more, letters⟩ := List.exists_cons_of_ne_nil named.ne_nil
        obtain rfl : c = d := by simpa [modifierText, letters] using first
        simp [letters]
    -- The space ends the modifier, and the word behind it begins anew.
    have space : words ([' '] ++ (modifierText chosen ++ rest)) =
        chosen.map String.toList ++ words rest := by
      have white : words [' '] = [] := words_blank (by decide)
      rw [words_append, white, List.nil_append, ih later]
      intro c last d first
      obtain rfl : ' ' = c := by simpa using last
      simp [behind d first]
      decide
    have shape : modifierText (modifier :: chosen) ++ rest =
        modifier.toList ++ ([' '] ++ (modifierText chosen ++ rest)) := by simp [modifierText]
    rw [shape, words_append, words_word named.ne_nil word, space]
    · rfl
    · intro c last d first
      obtain rfl : ' ' = d := by simpa using first
      rw [word c (List.mem_of_mem_getLast? last)]
      decide

/-- Modifiers in front of a declaration are passed over. -/
theorem contains_modifiers (listed : ∀ modifier ∈ chosen, modifier ∈ modifiers) :
    ∀ word ∈ chosen.map String.toList, modifiers.contains (String.ofList word) = true := by
  intro word member
  -- Each word is one of the modifiers, so it is found among them.
  obtain ⟨modifier, isChosen, rfl⟩ := List.mem_map.mp member
  simpa using listed modifier isChosen

/-- A method is known by the name in front of the first parenthesis. -/
theorem methodName?_eq {front name : List Char} (named : IsName name)
    (free : String.ofList name ∉ "fun" :: modifiers) (apart : ∀ c ∈ front, c ≠ '(' ∧ c ≠ '=')
    (visible : front.all isBlank = false) (spaced : ∀ c ∈ front.getLast?, isBlank c = true)
    (declares : ∀ word ∈ ((words front ++ [name]).dropWhile fun word =>
      modifiers.contains (String.ofList word)).head?, String.ofList word ∉ nonMethodWords)
    (rest : List Char) : methodName? (front ++ (name ++ '(' :: rest)) = some (front, name) := by
  obtain ⟨noFun, noModifier⟩ := List.ne_and_not_mem_of_not_mem_cons free
  have letters : ∀ c ∈ name, isBlank c = false := fun c member =>
    isBlank_of_isWordChar (named.parts c member)
  have word (c : Char) (isWord : isWordChar c = true) : c ≠ '(' ∧ c ≠ '=' := by
    constructor <;> (rintro rfl; exact absurd isWord (by decide))
  have head : (front ++ (name ++ '(' :: rest)).takeWhile (· != '(') = front ++ name := by
    rw [← List.append_assoc]
    refine takeWhile_stop (fun c member => ?_) (by simp)
    rcases List.mem_append.mp member with inFront | inName
    · simpa using (apart c inFront).1
    · simpa using (word c (named.parts c inName)).1
  have noValue : (front ++ name).contains '=' = false := by
    rw [List.contains_eq_mem, decide_eq_false_iff_not]
    intro member
    rcases List.mem_append.mp member with inFront | inName
    · exact (apart '=' inFront).2 rfl
    · exact (word '=' (named.parts '=' inName)).2 rfl
  have trailing : trailingName? (front ++ name) = some (front, name) :=
    named.trailingName?_eq fun c last => by
      by_contra isWord
      have visible := isBlank_of_isWordChar (by simpa using isWord)
      rw [spaced c last] at visible
      cases visible
  have split : words (front ++ name) = words front ++ [name] := by
    rw [words_append, words_word named.ne_nil letters]
    intro c last d first
    rw [spaced c last, letters d (List.mem_of_mem_head? first)]
    decide
  -- The name is no modifier, so some word is none.
  obtain ⟨first, found⟩ : ∃ first, ((words front ++ [name]).dropWhile fun word =>
      modifiers.contains (String.ofList word)).head? = some first := by
    cases left : (words front ++ [name]).dropWhile fun word =>
        modifiers.contains (String.ofList word) with
    | cons first more => exact ⟨first, rfl⟩
    | nil =>
      have isModifier := List.dropWhile_eq_nil_iff.mp left name (by simp)
      exact absurd (by simpa using isModifier) noModifier
  have longer : (front ++ name).length ≠ (front ++ (name ++ '(' :: rest)).length := by
    simp only [List.length_append, List.length_cons]
    omega
  have method : nonMethodWords.contains (String.ofList first) = false := by
    simpa using declares first found
  have noModifier : modifiers.contains (String.ofList name) = false := by simpa using noModifier
  have noFun : (String.ofList name == "fun") = false := by simpa using noFun
  simp only [methodName?, head, longer, decide_false, noValue, Bool.or_self, Bool.false_eq_true,
    if_false, split, found, Option.bind_eq_bind, Option.bind_some, method, trailing, visible,
    noModifier, noFun]

/-- What begins with a word of another declaration declares no method. -/
theorem methodName?_otherWord {word : List Char} (named : IsName word)
    (noModifier : String.ofList word ∉ modifiers) (other : String.ofList word ∈ nonMethodWords)
    (listed : ∀ modifier ∈ chosen, modifier ∈ modifiers) (rest : List Char) :
    methodName? (modifierText chosen ++ (word ++ ' ' :: rest)) = none := by
  have visible : ∀ c ∈ word, isBlank c = false := fun c member =>
    isBlank_of_isWordChar (named.parts c member)
  -- The first parenthesis is behind the word, so the word is part of what is looked at.
  have front : ∀ c ∈ modifierText chosen ++ word, (c != '(') = true := by
    intro c member
    have isPlain : isWordChar c = true ∨ c = ' ' := (List.mem_append.mp member).elim
      (mem_modifierText listed) fun inWord => .inl (named.parts c inWord)
    have apart := apart_of_isWordChar isPlain
    simp only [closingChars, List.mem_cons, not_or] at apart
    simpa using apart.2.1
  have head : (modifierText chosen ++ (word ++ ' ' :: rest)).takeWhile (· != '(') =
      modifierText chosen ++ (word ++ ' ' :: rest.takeWhile (· != '(')) := by
    rw [← List.append_assoc, List.takeWhile_append_of_pos front, List.takeWhile_cons_of_pos rfl,
      List.append_assoc]
  have split : words (modifierText chosen ++ (word ++ ' ' :: rest.takeWhile (· != '('))) =
      chosen.map String.toList ++ word :: words (' ' :: rest.takeWhile (· != '(')) := by
    rw [words_modifiers listed, words_append, words_word named.ne_nil visible,
      List.singleton_append]
    · intro c last d first
      obtain rfl : ' ' = d := by simpa using first
      rw [visible c (List.mem_of_mem_getLast? last)]
      decide
    · intro c first
      rw [List.head?_append_of_ne_nil _ named.ne_nil] at first
      exact visible c (List.mem_of_mem_head? first)
  -- Behind the modifiers it is the first word.
  have found : ((words (modifierText chosen ++ (word ++ ' ' ::
      rest.takeWhile (· != '(')))).dropWhile fun word =>
        modifiers.contains (String.ofList word)).head? = some word := by
    rw [split, List.dropWhile_append_of_pos (contains_modifiers listed),
      List.dropWhile_cons_of_neg (by simpa using noModifier)]
    rfl
  have noMethod : nonMethodWords.contains (String.ofList word) = true := by simpa using other
  simp only [methodName?, head]
  split
  · rfl
  · simp only [found, Option.bind_eq_bind, Option.bind_some, noMethod, if_true]

end Words


end Member

end IndexAudit
