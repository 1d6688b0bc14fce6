import IndexAudit.Proofs.Query.Directive

/-!
Source texts without their directives.

In comments, spaces take the place of each word that makes a directive. The lines of the text stay
as they are otherwise, since no such word has a character that begins or ends a comment or a string.
-/

namespace IndexAudit

/-- The comments of what is left of a line. -/
def SourcePiece.commentAhead : List SourcePiece → List Char
  | .comment c :: rest => c :: commentAhead rest
  | .code _ :: rest => commentAhead rest
  | _ => []

namespace Suppression

open SourcePiece (commentAhead)

/-- What is left to erase, in front of a comment: a whole directive where one begins. -/
def wordAt (word ahead : List Char) : List Char :=
  if directive <+: ahead then directive else word

/-- A comment without its directives, `word` being what is left to erase of one. -/
def eraseComment (word : List Char) : List Char → List Char
  | [] => []
  | c :: rest =>
    let left := wordAt word (c :: rest)
    (if left = [] then c else ' ') :: eraseComment left.tail rest

/-- The pieces of a text without the directives in its comments. -/
def erasePieces (word : List Char) : List SourcePiece → List SourcePiece
  | [] => []
  | .lineBreak :: rest => .lineBreak :: erasePieces [] rest
  | .code c :: rest => .code c :: erasePieces word rest
  | .comment c :: rest =>
    let left := wordAt word (c :: commentAhead rest)
    .comment (if left = [] then c else ' ') :: erasePieces left.tail rest

/-- A source text, read from a given state on, without the directives in its comments. -/
def eraseFrom (state : SourceState) (word : List Char) : List Char → List Char
  | [] => []
  | c :: rest =>
    if c = '\n' then c :: eraseFrom state.afterLineBreak [] rest
    else if c = '\r' ∧ ¬ state.protects then c :: eraseFrom state word rest
    else
      let taken := state.step c rest
      match taken.1 with
      | .comment _ :: _ =>
        -- Whether a directive begins here depends on the comment ahead, over line ends as well.
        let left := wordAt word (commentAhead (state.pieces (c :: rest)))
        (if left = [] then c else ' ') :: eraseFrom taken.2 left.tail rest
      | _ => c :: eraseFrom taken.2 word rest

/-- A source text without the directives in its comments. -/
def eraseDirectives (text : List Char) : List Char :=
  eraseFrom .code [] text

/-! A comment that is erased has no directive. -/

section Comment

variable {word comment : List Char}

/-- What begins an erased comment, and has no space, begins the comment itself. -/
theorem isPrefix_of_eraseComment {start : List Char} (visible : ' ' ∉ start)
    (begins : start <+: eraseComment word comment) : start <+: comment := by
  induction start generalizing word comment with
  | nil => exact List.nil_prefix
  | cons d start ih =>
    obtain ⟨apart, visible⟩ := List.ne_and_not_mem_of_not_mem_cons visible
    cases comment with
    | nil => simp [eraseComment] at begins
    | cons c rest =>
      rw [eraseComment, List.cons_prefix_cons] at begins
      obtain ⟨same, begins⟩ := begins
      split at same
      -- What is erased becomes a space, which the start does not hold, so this was kept.
      · rw [same, List.cons_prefix_cons]
        exact ⟨rfl, ih visible begins⟩
      · exact absurd same.symm apart

/-- No erased comment begins with a directive. -/
theorem not_isPrefix_eraseComment : ¬ directive <+: eraseComment word comment := by
  intro begins
  have written := isPrefix_of_eraseComment (by decide) begins
  cases comment with
  | nil => exact directive_ne_nil (List.prefix_nil.mp written)
  | cons c rest =>
    -- Where the comment has a directive, a space has taken the place of its first character.
    rw [eraseComment, wordAt, if_pos written, if_neg directive_ne_nil] at begins
    obtain ⟨behind, whole⟩ := begins
    have first := congrArg List.head? whole
    rw [List.head?_append_of_ne_nil _ directive_ne_nil, List.head?_cons] at first
    exact absurd first (by decide)

/-- No erased comment has a directive. -/
theorem not_isInfix_eraseComment : ¬ directive <:+: eraseComment word comment := by
  induction comment generalizing word with
  | nil =>
    intro inside
    exact directive_ne_nil (List.infix_nil.mp inside)
  | cons c rest ih =>
    intro inside
    rw [eraseComment, List.infix_cons_iff] at inside
    -- A directive in what is left begins with the first character or behind it.
    rcases inside with begins | later
    · exact @not_isPrefix_eraseComment word (c :: rest) begins
    · exact ih later

end Comment

/-- Erased pieces make up the lines that there were, with their comments erased. -/
theorem ofPieces_erasePieces {word before erased : List Char} {pieces : List SourcePiece}
    (same : erased ++ eraseComment word (commentAhead pieces) =
      eraseComment [] (before ++ commentAhead pieces)) (number : Nat) (code : List Char) :
    SourceLine.ofPieces number code erased (erasePieces word pieces) =
      (SourceLine.ofPieces number code before pieces).map fun line =>
        { line with comment := eraseComment [] line.comment } := by
  -- The comment in front of the pieces is erased, and more of it is with each piece.
  induction pieces generalizing word before erased number code with
  | nil =>
    simp only [commentAhead, eraseComment, List.append_nil] at same
    subst same
    have empty : (eraseComment [] before).isEmpty = before.isEmpty := by cases before <;> rfl
    simp only [erasePieces, SourceLine.ofPieces, empty]
    split <;> simp
  | cons piece rest ih =>
    cases piece with
    | code c => exact ih same number (code ++ [c])
    | lineBreak =>
      simp only [commentAhead, eraseComment, List.append_nil] at same
      simp only [erasePieces, SourceLine.ofPieces, List.map_cons, same]
      rw [@ih [] [] [] (by simp) (number + 1) []]
    | comment c =>
      simp only [erasePieces, SourceLine.ofPieces]
      refine ih ?_ number code
      simpa [commentAhead, eraseComment] using same

/-! The scanner takes the same steps through a text and through what is left of it. -/

/-- A space may have taken the place of a character of a directive. -/
def Erases (c d : Char) : Prop :=
  d = c ∨ d = ' ' ∧ c ∈ directive

section Steps

variable {rest left : List Char}

/-- A character that is no part of a directive, and no space, is found where it was. -/
theorem erases_eq_iff {c d mark : Char} (apart : mark ∉ directive) (visible : mark ≠ ' ')
    (erases : Erases c d) : d = mark ↔ c = mark := by
  -- Only a character of the directive is erased, and only to a space.
  rcases erases with rfl | ⟨rfl, member⟩
  · rfl
  · exact ⟨fun same => absurd same.symm visible, fun same => absurd (same ▸ member) apart⟩

/-- Such a character is found at the front where it was. -/
theorem head?_erases {mark : Char} (apart : mark ∉ directive) (visible : mark ≠ ' ')
    (erases : List.Forall₂ Erases rest left) : left.head? = some mark ↔ rest.head? = some mark := by
  -- Both texts are empty, or their first characters correspond.
  cases erases with
  | nil => rfl
  | cons first later => simpa using erases_eq_iff apart visible first

/-- A run of such a character is found at the front where it was. -/
theorem take_erases {mark : Char} (apart : mark ∉ directive) (visible : mark ≠ ' ')
    (erases : List.Forall₂ Erases rest left) (count : Nat) :
    left.take count = List.replicate count mark ↔ rest.take count = List.replicate count mark := by
  induction count generalizing rest left with
  | zero => simp
  | succ count ih =>
    cases erases with
    | nil => rfl
    | cons first later =>
      -- The mark is neither erased nor what takes the place of something erased.
      simp [List.replicate_succ, erases_eq_iff apart visible first, ih later]

/-- A character is read the same in front of what is left of a text. -/
theorem step_erases (erases : List.Forall₂ Erases rest left) (state : SourceState) (c : Char) :
    state.step c left = state.step c rest := by
  -- The scan looks ahead for these marks alone, and none of them is part of a directive.
  have slash : left.head? = some '/' ↔ rest.head? = some '/' :=
    head?_erases (by decide) (by decide) erases
  have star : left.head? = some '*' ↔ rest.head? = some '*' :=
    head?_erases (by decide) (by decide) erases
  have two : left.take 2 = ['"', '"'] ↔ rest.take 2 = ['"', '"'] :=
    take_erases (by decide) (by decide) erases 2
  have three : left.take 3 = ['"', '"', '"'] ↔ rest.take 3 = ['"', '"', '"'] :=
    take_erases (by decide) (by decide) erases 3
  have goes : left.head?.any (· != '\n') = rest.head?.any (· != '\n') := by
    cases erases with
    | nil => rfl
    | cons first later =>
      simp [bne, beq_eq_decide, erases_eq_iff (show '\n' ∉ directive by decide) (by decide) first]
  cases state <;> simp only [SourceState.step, slash, star, two, three, ne_eq, goes]

/-- What a character contributes is itself, as code or in a comment that may end behind it. -/
theorem step_cases (state : SourceState) (c : Char) (rest : List Char) :
    (state.step c rest).1 = [.code c] ∨ ∃ more, (state.step c rest).1 = .comment c :: more ∧
      (∀ pieces, commentAhead (more ++ pieces) = commentAhead pieces) ∧
      ∀ word pieces, erasePieces word (more ++ pieces) = more ++ erasePieces word pieces := by
  -- A step yields a character of code or of a comment, the last of which may leave a space.
  have shape : (state.step c rest).1 = [.code c] ∨ (state.step c rest).1 = [.comment c] ∨
      (state.step c rest).1 = [.comment c, .code ' '] := by
    cases state <;> simp only [SourceState.step] <;> (try split_ifs) <;> simp
  rcases shape with code | comment | ended
  · exact .inl code
  · exact .inr ⟨[], comment, fun _ => rfl, fun _ _ => rfl⟩
  · exact .inr ⟨[.code ' '], ended, fun _ => rfl, fun _ _ => rfl⟩

/-- In a comment a space is read like a character of a directive. -/
theorem step_space {state next : SourceState} {c : Char} {more : List SourcePiece}
    (member : c ∈ directive) (read : state.step c rest = (.comment c :: more, next)) :
    state.step ' ' rest = (.comment ' ' :: more, next) := by
  have apart : c ≠ '/' ∧ c ≠ '*' := by
    constructor <;> (rintro rfl; exact absurd member (by decide))
  cases state with
  | lineComment | blockOpening | blockComment | blockClosing =>
    simp_all [SourceState.step]
  | stringEscape | characterEscape | rawOpening | rawClosing =>
    simp [SourceState.step] at read
  | code | string | character | rawString =>
    -- Outside comments only a mark that opens one is read as part of it.
    simp only [SourceState.step] at read
    split_ifs at read <;> simp_all

end Steps

/-- A space may have taken the place of no other character than one of a directive. -/
theorem wordAt_tail {word ahead : List Char} {c : Char} (within : ∀ d ∈ word, d ∈ directive)
    (begins : word <+: c :: ahead) :
    (wordAt word (c :: ahead) ≠ [] → c ∈ directive) ∧
      (∀ d ∈ (wordAt word (c :: ahead)).tail, d ∈ directive) ∧
      (wordAt word (c :: ahead)).tail <+: ahead := by
  -- What is left to erase is part of a directive, and comes next in the comment.
  obtain ⟨within, begins⟩ : (∀ d ∈ wordAt word (c :: ahead), d ∈ directive) ∧
      wordAt word (c :: ahead) <+: c :: ahead := by
    unfold wordAt
    split
    · rename_i here
      exact ⟨fun d member => member, here⟩
    · exact ⟨within, begins⟩
  cases left : wordAt word (c :: ahead) with
  | nil => simp
  | cons d more =>
    rw [left] at within begins
    obtain ⟨rfl, later⟩ := List.cons_prefix_cons.mp begins
    exact ⟨fun _ => within d (by simp), fun e member => within e (List.mem_cons_of_mem d member),
      later⟩

/--
The pieces of a text without its directives are its own pieces, erased.

What is left to erase of a directive always comes next in the comment.
-/
theorem pieces_eraseFrom {text : List Char} {state : SourceState} {word : List Char}
    (within : ∀ d ∈ word, d ∈ directive) (begins : word <+: commentAhead (state.pieces text)) :
    List.Forall₂ Erases text (eraseFrom state word text) ∧
      state.pieces (eraseFrom state word text) = erasePieces word (state.pieces text) := by
  -- The induction follows the scanner, which is in the same state in both texts.
  induction text generalizing state word with
  | nil => simp [eraseFrom, SourceState.pieces, erasePieces]
  | cons c rest ih =>
    rw [eraseFrom]
    by_cases ended : c = '\n'
    · obtain ⟨erases, same⟩ := @ih state.afterLineBreak [] (by simp) (by simp)
      simp only [ended, if_true, SourceState.pieces, erasePieces, same, and_true]
      exact .cons (.inl rfl) erases
    by_cases skipped : c = '\r' ∧ ¬ state.protects
    · rw [SourceState.pieces, if_neg ended, if_pos skipped] at begins
      obtain ⟨erases, same⟩ := ih within begins
      simp only [SourceState.pieces, if_neg ended, if_pos skipped, same, and_true]
      exact .cons (.inl rfl) erases
    have pieces : state.pieces (c :: rest) =
        (state.step c rest).1 ++ (state.step c rest).2.pieces rest := by
      rw [SourceState.pieces, if_neg ended, if_neg skipped]
    rw [pieces] at begins ⊢
    rw [if_neg ended, if_neg skipped]
    have shape := step_cases state c rest
    generalize read : state.step c rest = taken at begins shape ⊢
    obtain ⟨given, next⟩ := taken
    obtain rfl | ⟨more, rfl, ahead, erased⟩ := shape
    · obtain ⟨erases, same⟩ := ih within begins
      refine ⟨.cons (.inl rfl) erases, ?_⟩
      simp only [SourceState.pieces, if_neg ended, if_neg skipped, step_erases erases, read]
      simp [erasePieces, same]
    · simp only [List.cons_append, commentAhead, ahead] at begins ⊢
      obtain ⟨inside, within, begins⟩ := wordAt_tail within begins
      obtain ⟨erases, same⟩ := ih within begins
      by_cases nothing : wordAt word (c :: commentAhead (next.pieces rest)) = []
      · simp only [nothing, List.tail_nil, if_true] at erases same ⊢
        refine ⟨.cons (.inl rfl) erases, ?_⟩
        simp only [SourceState.pieces, if_neg ended, if_neg skipped, step_erases erases, read]
        simp [erasePieces, ahead, erased, nothing, same]
      · have read := step_space (inside nothing) read
        simp only [if_neg nothing]
        refine ⟨.cons (.inr ⟨rfl, inside nothing⟩) erases, ?_⟩
        simp only [SourceState.pieces, step_erases erases, read]
        simp [erasePieces, ahead, erased, nothing, same]

/-- The lines of a text without its directives are its own lines, with their comments erased. -/
theorem ofText_eraseDirectives (text : List Char) :
    SourceLine.ofText (eraseDirectives text) =
      (SourceLine.ofText text).map fun line =>
        { line with comment := eraseComment [] line.comment } := by
  -- Erasing the text erases its pieces, and lines are made up of these.
  rw [SourceLine.ofText, eraseDirectives, (pieces_eraseFrom (by simp) List.nil_prefix).2]
  exact ofPieces_erasePieces (by simp) 1 []

/-- A text without its directives has the code of the text. -/
theorem codeText_eraseDirectives (text : List Char) :
    SourceLine.codeText (SourceLine.ofText (eraseDirectives text)) =
      SourceLine.codeText (SourceLine.ofText text) := by
  -- Erasing changes comments alone, and those are no code.
  simp [SourceLine.codeText, ofText_eraseDirectives, Function.comp_def]

/-- A text without its directives has no directives. -/
theorem not_isInfix_eraseDirectives {text : List Char} :
    ∀ line ∈ SourceLine.ofText (eraseDirectives text), ¬ directive <:+: line.comment := by
  -- Each line of it has an erased comment, in which none is left.
  rw [ofText_eraseDirectives]
  intro line member
  obtain ⟨_, -, rfl⟩ := List.mem_map.mp member
  exact not_isInfix_eraseComment

end Suppression

end IndexAudit
