import IndexAudit.Text.Search
import Mathlib.Data.List.SplitBy
import Mathlib.Data.List.TakeWhile

/-!
Texts are taken and trimmed up to the first character that is not of a kind, and cut where the kind
changes.
-/

namespace IndexAudit

/-- What holds of each row of white-space characters holds of all white space. -/
theorem isBlank_imp {p : Char → Bool} {c : Char} (white : isBlank c = true)
    (each : ∀ run ∈ blankRuns, ∀ index ≤ run.last - run.first,
      p (Char.ofNat (run.first + index)) = true) : p c = true := by
  simp only [isBlank, CharRun.covers, CharRun.holds, List.any_eq_true, Bool.and_eq_true,
    decide_eq_true_eq] at white
  -- White space lies in one of the runs, at some distance from its start.
  obtain ⟨run, listed, ⟨above, below⟩, -⟩ := white
  have found := each run listed (c.toNat - run.first) (by omega)
  rwa [Nat.add_sub_cancel' above, Char.ofNat_toNat] at found

/-- A character of a word is no white space. -/
theorem isBlank_of_isWordChar {c : Char} (word : isWordChar c = true) : isBlank c = false := by
  by_contra white
  -- There are few enough white-space characters to look at each of them.
  have apart := isBlank_imp (p := (!isWordChar ·)) (by simpa using white) (by decide +kernel)
  simp [word] at apart

section Taking

variable {p : Char → Bool} {front rest : List Char}

/-- Characters up to where they are no longer of a kind are taken. -/
theorem takeWhile_stop (parts : ∀ d ∈ front, p d = true) (ends : ∀ d ∈ rest.head?, p d = false) :
    (front ++ rest).takeWhile p = front := by
  rw [List.takeWhile_append_of_pos parts]
  -- All of the front is taken, and then nothing or a character that stops.
  cases rest with
  | nil => simp
  | cons d rest => simp [ends d rfl]

/-- Characters from where they are no longer of a kind are left. -/
theorem dropWhile_stop (parts : ∀ d ∈ front, p d = true) (ends : ∀ d ∈ rest.head?, p d = false) :
    (front ++ rest).dropWhile p = rest := by
  rw [List.dropWhile_append_of_pos parts]
  -- All of the front is dropped, and then nothing or a character that stops.
  cases rest with
  | nil => simp
  | cons d rest => simp [ends d rfl]

/-- Nothing is left out of a text that begins with a character of another kind. -/
theorem dropWhile_eq (starts : ∀ d ∈ rest.head?, p d = false) : rest.dropWhile p = rest :=
  -- With nothing in front, dropping stops at once.
  @dropWhile_stop p [] rest (by simp) starts

/-- What stops the taking of characters is none of their kind. -/
theorem head?_dropWhile (text : List Char) : ∀ d ∈ (text.dropWhile p).head?, p d = false := by
  intro d first
  have stopped := List.head?_dropWhile_not p text
  simpa [Option.mem_def.mp first] using stopped

end Taking

section Trimming

variable {p : Char → Bool} {front : List Char} {c : Char}

/-- Nothing is dropped in front of a character that is kept. -/
theorem dropEndWhile_stop (kept : p c = false) (front back : List Char) :
    dropEndWhile p (front ++ c :: back) = front ++ c :: dropEndWhile p back := by
  rw [dropEndWhile, dropEndWhile, List.reverse_append, List.reverse_cons, List.append_assoc,
    List.dropWhile_append]
  -- Reversed, the back comes first, and the character stops what is dropped behind it.
  by_cases all : (back.reverse.dropWhile p).isEmpty
  · have nothing : back.reverse.dropWhile p = [] := List.isEmpty_iff.mp all
    simp [nothing, kept]
  · simp [all]

/-- Nothing is dropped from a text that ends in a character that is kept. -/
theorem dropEndWhile_eq (kept : ∀ c ∈ front.getLast?, p c = false) :
    dropEndWhile p front = front := by
  -- An empty text has nothing to drop, and any other stops at its last character.
  rcases List.eq_nil_or_concat front with rfl | ⟨front, c, rfl⟩
  · rfl
  · have apart := kept c (by simp)
    simpa [dropEndWhile] using dropEndWhile_stop apart front []

/-- What dropping from the end of a text leaves is the start of it. -/
theorem dropEndWhile_isPrefix (p : Char → Bool) (text : List Char) :
    dropEndWhile p text <+: text := by
  -- Reversed, what is left is the end of the text.
  rw [dropEndWhile, ← List.reverse_suffix, List.reverse_reverse]
  exact List.dropWhile_suffix _

/-- What trimming leaves is a part of the text. -/
theorem trim_isInfix (text : List Char) : trim text <:+: text :=
  -- It is the start of an end of the text.
  (dropEndWhile_isPrefix isBlank _).isInfix.trans (List.dropWhile_suffix _).isInfix

/-- A text with no white space at either end is trimmed already. -/
theorem trim_eq (starts : ∀ c ∈ front.head?, isBlank c = false)
    (ends : ∀ c ∈ front.getLast?, isBlank c = false) : trim front = front := by
  -- Neither end has anything to drop.
  have start : trimStart front = front := dropWhile_eq starts
  rw [trim, start, dropEndWhile_eq ends]

/-- Trimming a text takes nothing but white space off it. -/
theorem mem_trim {text : List Char} (member : c ∈ text) (visible : isBlank c = false) :
    c ∈ trim text := by
  -- Only white space is dropped from either end, and the character is none.
  have kept {some : List Char} (member : c ∈ some) : c ∈ some.dropWhile isBlank := by
    rw [← List.takeWhile_append_dropWhile (p := isBlank) (l := some)] at member
    refine (List.mem_append.mp member).resolve_left fun dropped => ?_
    simp [List.mem_takeWhile_imp dropped] at visible
  exact List.mem_reverse.mpr (kept (List.mem_reverse.mpr (kept member)))

/-- White space behind a text is no part of it when it is trimmed. -/
theorem trim_append {blank : List Char} (white : ∀ c ∈ blank, isBlank c = true) (text : List Char) :
    trim (text ++ blank) = trim text := by
  have nothing : trimStart blank = [] := List.dropWhile_eq_nil_iff.mpr white
  rw [trim, trim, trimStart, trimStart, List.dropWhile_append]
  -- Either nothing is left of both, or the blank is dropped from the end.
  by_cases empty : (text.dropWhile isBlank).isEmpty
  · rw [if_pos empty, ← trimStart, nothing, List.isEmpty_iff.mp empty]
  · rw [if_neg empty, dropEndWhile, dropEndWhile, List.reverse_append,
      List.dropWhile_append_of_pos (by simpa using white)]

end Trimming

section Words

variable {text front back : List Char}

/-- The words of two texts are those of both if a word or white space ends between them. -/
theorem words_append
    (border : ∀ c ∈ front.getLast?, ∀ d ∈ back.head?, isBlank c ≠ isBlank d) :
    words (front ++ back) = words front ++ words back := by
  -- The runs of a text are divided where its kind changes, and here it does.
  rw [words, List.splitBy_append fun c last d first => by simpa using border c last d first,
    List.filter_append]
  rfl

/-- Text of one kind is a single run. -/
theorem splitBy_isBlank {kind : Bool} (filled : text ≠ [])
    (each : ∀ c ∈ text, isBlank c = kind) :
    text.splitBy (fun a b => isBlank a == isBlank b) = [text] := by
  -- Any two neighbours are of the same kind, so nothing divides the text.
  refine List.splitBy_of_isChain filled (List.Pairwise.isChain ?_)
  refine List.pairwise_of_forall_mem_list fun a first b second => ?_
  rw [each a first, each b second, beq_self_eq_true]

/-- White space has no words. -/
theorem words_blank (blank : ∀ c ∈ text, isBlank c = true) : words text = [] := by
  -- White space is one run, and as such left out.
  cases text with
  | nil => rfl
  | cons c text =>
    have first := blank c (by simp)
    rw [words, splitBy_isBlank (List.cons_ne_nil c text) blank]
    simp [first]

/-- Text without white space is one word. -/
theorem words_word (filled : text ≠ []) (visible : ∀ c ∈ text, isBlank c = false) :
    words text = [text] := by
  -- The text is one run, and not of white space.
  obtain ⟨c, text, rfl⟩ := List.exists_cons_of_ne_nil filled
  have first := visible c (by simp)
  rw [words, splitBy_isBlank filled visible]
  simp [first]

/-- A text that begins with no white space begins with its first word. -/
theorem head?_words {c : Char} (visible : isBlank c = false) (rest : List Char) :
    ∃ word more, words (c :: rest) = (c :: word) :: more := by
  -- Put together, the runs are the text, so the first one begins with its first character.
  have whole := List.flatten_splitBy (fun a b => isBlank a == isBlank b) (c :: rest)
  have filled := List.nil_notMem_splitBy (fun a b => isBlank a == isBlank b) (c :: rest)
  rw [words]
  generalize (c :: rest).splitBy (fun a b => isBlank a == isBlank b) = runs at whole filled
  match runs with
  | [] => cases whole
  | [] :: _ => exact absurd (List.mem_cons_self ..) filled
  | (d :: word) :: more =>
    obtain rfl : d = c := (List.cons.inj whole).1
    exact ⟨word, _, List.filter_cons_of_pos (by simp [visible])⟩

end Words

end IndexAudit
