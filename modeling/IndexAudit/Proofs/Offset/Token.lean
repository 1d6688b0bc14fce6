import IndexAudit.Proofs.Offset.Slice
import IndexAudit.Proofs.Sql.Spelling

/-!
Queries divided into tokens by the positions of their characters.

Names are cut out between two positions, and each token ends behind the position it begins at.
-/

namespace IndexAudit

namespace SqlToken

/-- The position behind the characters of a kind that stand at a position. -/
def runEnd (p : Char → Bool) (text : List Char) (place : Nat) : Nat :=
  place + ((text.drop place).takeWhile p).length

/-- How many characters of a text a block comment that has been entered takes up. -/
def commentSize : List Char → Nat
  | '*' :: '/' :: _ => 2
  | _ :: rest => commentSize rest + 1
  | [] => 2

/-- How many characters of a text a string that has been entered takes up. -/
def stringSize : List Char → Nat
  | '\'' :: '\'' :: rest => stringSize rest + 2
  | '\'' :: _ => 1
  | _ :: rest => stringSize rest + 1
  | [] => 1

/-- The token that begins with a character at a position, if one does, and the position behind it. -/
def readAt? (text : List Char) (place : Nat) (c : Char) : Option (Option SqlToken × Nat) :=
  -- One character of look-ahead is all that any of the cases needs.
  let next := text[place + 1]?
  if isBlank c then some (none, place + 1)
  else if c = '-' ∧ next = some '-' then some (none, runEnd (· != '\n') text place)
  else if c = '/' ∧ next = some '*' then
    some (none, place + 2 + commentSize (text.drop (place + 2)))
  else if c = '\'' then some (some .string, place + 1 + stringSize (text.drop (place + 1)))
  else if c = '"' ∨ c = '\x60' then
    let stop := runEnd (· != c) text (place + 1)
    (between? (place + 1) stop text).map fun name => (some (.quoted (String.ofList name)), stop + 1)
  else if c.isDigit then some (some .number, runEnd (fun d => d.isAlphanum || d = '.') text place)
  else if startsWord c then
    let stop := runEnd continuesWord text place
    (between? place stop text).map fun name => (some (.word (String.ofList name)), stop)
  else if c = ':' ∧ next.any startsWord then
    some (some .parameter, runEnd continuesWord text (place + 1))
  else if c = '?' ∨ (c = '$' ∧ next.any Char.isDigit) then
    some (some .parameter, runEnd Char.isDigit text (place + 1))
  else if c = '(' ∨ c = ')' ∨ c = ',' ∨ c = '.' ∨ c = ';' then
    some (some (.punctuation c), place + 1)
  else
    match next with
    | some d =>
      if pairOperators.contains (c, d) then some (some (.operator (String.ofList [c, d])), place + 2)
      else some (some (.operator (String.ofList [c])), place + 1)
    | none => some (some (.operator (String.ofList [c])), place + 1)

/--
The tokens of a text from a position on.

It fails if a cut does, or if there are more steps than there is fuel for.
-/
def tokensFrom? (text : List Char) : Nat → Nat → Option (List SqlToken)
  | 0, _ => none
  | fuel + 1, place =>
    match text[place]? with
    | none => some []
    | some c => do
      let (token, next) ← readAt? text place c
      let later ← tokensFrom? text fuel next
      some (token.toList ++ later)

/-- The tokens of a text. -/
def tokens? (text : List Char) : Option (List SqlToken) :=
  tokensFrom? text (text.length + 1) 0

variable {text : List Char} {place : Nat}

/-- Behind the characters of a kind comes what does not begin with one of them. -/
theorem drop_runEnd (p : Char → Bool) (text : List Char) (place : Nat) :
    text.drop (runEnd p text place) = (text.drop place).dropWhile p := by
  -- What is behind the place is the run and what stops it, and the run is dropped.
  have cut : ((text.drop place).takeWhile p ++ (text.drop place).dropWhile p).drop
      ((text.drop place).takeWhile p).length = (text.drop place).dropWhile p := List.drop_left
  rwa [List.takeWhile_append_dropWhile, List.drop_drop] at cut

/-- Characters of a kind that stand at a position are cut out. -/
theorem between?_runEnd (p : Char → Bool) (within : place ≤ text.length) :
    between? place (runEnd p text place) text = some ((text.drop place).takeWhile p) := by
  -- The text is what is in front of the place, the run, and what stops it.
  have cut := between?_length (text.take place) ((text.drop place).takeWhile p)
    ((text.drop place).dropWhile p)
  rwa [List.append_assoc, List.takeWhile_append_dropWhile, List.take_append_drop,
    List.length_take_of_le within] at cut

/-- What follows a block comment follows the characters that it takes up. -/
theorem drop_commentSize (text : List Char) : text.drop (commentSize text) = afterComment text := by
  fun_induction commentSize text with
  | case1 => rfl
  | case2 c rest goes ih =>
    rw [List.drop_succ_cons, ih, afterComment_cons]
    -- Did the comment end here, a slash would follow the star.
    rintro ⟨rfl, slash⟩
    obtain ⟨more, rfl⟩ := List.head?_eq_some_iff.mp slash
    exact goes more rfl rfl
  | case3 => rfl

/-- What follows a string follows the characters that it takes up. -/
theorem drop_stringSize (text : List Char) : text.drop (stringSize text) = afterString text := by
  fun_induction stringSize text with
  | case1 rest ih => simpa [afterString] using ih
  -- A quote with no other one behind it ends the literal.
  | case2 rest single =>
    refine (afterString_quote fun doubledQuote => ?_).symm
    obtain ⟨more, rfl⟩ := List.head?_eq_some_iff.mp doubledQuote
    exact single more rfl
  | case3 c rest _ noQuote ih =>
    rw [List.drop_succ_cons, ih, afterString_cons fun same => noQuote same]
  | case4 => rfl

/-- What follows the first character at a position stands one position further. -/
theorem drop_succ {c : Char} {rest : List Char} (start : text.drop place = c :: rest) :
    text.drop (place + 1) = rest := by
  rw [← List.drop_drop, start, List.drop_succ_cons, List.drop_zero]

/-- A run from a character of its kind on reaches as far as one from behind that character. -/
theorem runEnd_start {p : Char → Bool} {c : Char} {rest : List Char}
    (start : text.drop place = c :: rest) (kind : p c = true) :
    place < runEnd p text place ∧ text.drop (runEnd p text place) = rest.dropWhile p := by
  refine ⟨?_, by rw [drop_runEnd, start, List.dropWhile_cons_of_pos kind]⟩
  -- The run has at least the character that it starts with.
  rw [runEnd, start, List.takeWhile_cons_of_pos kind, List.length_cons]
  omega

/-- A run from behind a character on ends behind that character. -/
theorem runEnd_next (p : Char → Bool) {c : Char} {rest : List Char}
    (start : text.drop place = c :: rest) :
    place < runEnd p text (place + 1) ∧
      text.drop (runEnd p text (place + 1)) = rest.dropWhile p :=
  -- The character itself is passed, of whatever kind it is.
  ⟨Nat.le_add_right _ _, by rw [drop_runEnd, drop_succ start]⟩

/-- A token is read at the position of its first character, and ends behind that. -/
theorem readAt?_eq {c : Char} {rest : List Char} (start : text.drop place = c :: rest) :
    ∃ next, readAt? text place c = some ((read c rest).1, next) ∧ place < next ∧
      text.drop next = (read c rest).2 := by
  have behind := drop_succ start
  have second : text[place + 1]? = rest.head? := by
    rw [← behind, List.head?_drop]
  have within : place + 1 ≤ text.length := by
    have size := congrArg List.length start
    rw [List.length_drop, List.length_cons] at size
    omega
  unfold readAt? read readToken readSymbol
  simp only [second]
  -- Both readers test in the same order, so each test is settled for both at once.
  by_cases white : isBlank c
  · exact ⟨place + 1, by rw [if_pos white, if_pos white], Nat.lt_succ_self _, by simp [white, behind]⟩
  simp only [if_neg white]
  by_cases line : c = '-' ∧ rest.head? = some '-'
  · have reach := runEnd_start (p := (· != '\n')) start (by rw [line.1]; rfl)
    exact ⟨_, by simp only [if_pos line], reach.1, by simp only [if_pos line, reach.2]⟩
  simp only [if_neg line]
  by_cases block : c = '/' ∧ rest.head? = some '*'
  · refine ⟨place + 2 + commentSize (text.drop (place + 2)), by simp only [if_pos block], by omega, ?_⟩
    rw [if_pos block, ← List.drop_drop, drop_commentSize, ← behind, List.drop_drop]
  simp only [if_neg block]
  by_cases quote : c = '\''
  · refine ⟨place + 1 + stringSize rest, by simp only [if_pos quote, behind], by omega, ?_⟩
    rw [if_pos quote, ← List.drop_drop, behind, drop_stringSize]
  simp only [if_neg quote]
  by_cases mark : c = '"' ∨ c = '\x60'
  · have reach := runEnd_next (· != c) start
    refine ⟨runEnd (· != c) text (place + 1) + 1, ?_, Nat.lt_succ_of_lt reach.1, ?_⟩
    · simp only [if_pos mark, between?_runEnd _ within, behind, Option.map_some]
    · rw [if_pos mark, ← List.drop_drop, reach.2]
  simp only [if_neg mark]
  by_cases digit : c.isDigit
  · have reach := runEnd_start (p := fun d => d.isAlphanum || d = '.') start
      (by simp [Char.isAlphanum, digit])
    exact ⟨_, by simp only [if_pos digit], reach.1, by simp only [if_pos digit, reach.2]⟩
  simp only [if_neg digit]
  -- The first character of a word may also go on with one, so it is in the run.
  by_cases word : startsWord c
  · have goes := continuesWord_of_startsWord word
    have reach := runEnd_start start goes
    refine ⟨runEnd continuesWord text place, ?_, reach.1, by simp only [if_pos word, reach.2]⟩
    simp only [if_pos word, between?_runEnd _ (Nat.le_of_succ_le within), start,
      List.takeWhile_cons_of_pos goes, Option.map_some]
  simp only [if_neg word]
  by_cases named : c = ':' ∧ rest.head?.any startsWord
  · have reach := runEnd_next continuesWord start
    exact ⟨_, by simp only [if_pos named], reach.1, by simp only [if_pos named, reach.2]⟩
  simp only [if_neg named]
  by_cases numbered : c = '?' ∨ (c = '$' ∧ rest.head?.any Char.isDigit)
  · have reach := runEnd_next Char.isDigit start
    exact ⟨_, by simp only [if_pos numbered], reach.1, by simp only [if_pos numbered, reach.2]⟩
  simp only [if_neg numbered]
  by_cases structures : c = '(' ∨ c = ')' ∨ c = ',' ∨ c = '.' ∨ c = ';'
  · exact ⟨place + 1, by simp only [if_pos structures], Nat.lt_succ_self _,
      by simp only [if_pos structures, behind]⟩
  simp only [if_neg structures]
  cases rest with
  | nil => exact ⟨place + 1, rfl, Nat.lt_succ_self _, behind⟩
  | cons d after =>
    simp only [List.head?_cons, readOperator, List.contains_iff_mem]
    by_cases pair : (c, d) ∈ pairOperators
    · refine ⟨place + 2, by simp only [if_pos pair], by omega, ?_⟩
      rw [if_pos pair, ← List.drop_drop, start]
      rfl
    · exact ⟨place + 1, by simp only [if_neg pair], Nat.lt_succ_self _, by simp only [if_neg pair, behind]⟩

/-- The tokens of a text are read from each position on. -/
theorem tokensFrom?_eq (fuel : Nat) (enough : text.length - place < fuel) :
    tokensFrom? text fuel place = some (tokenize (text.drop place)) := by
  induction fuel generalizing place with
  | zero => omega
  | succ fuel ih =>
    rw [tokensFrom?, ← List.head?_drop]
    cases start : text.drop place with
    | nil => simp [tokenize]
    | cons c rest =>
      -- Each step goes further into the text, so the fuel lasts.
      obtain ⟨next, found, further, behind⟩ := readAt?_eq start
      have within : place < text.length := List.drop_eq_nil_iff.not.mp (by simp [start]) |> Nat.lt_of_not_le
      simp only [List.head?_cons, found, Option.bind_eq_bind, Option.bind_some]
      rw [ih (by omega), behind, tokenize_cons]
      rfl

/-- A text is divided into its tokens without fail. -/
theorem tokens?_eq (text : List Char) : tokens? text = some (tokenize text) := by
  -- A position for each character is enough fuel.
  rw [tokens?, tokensFrom?_eq _ (by omega), List.drop_zero]

end SqlToken

end IndexAudit
