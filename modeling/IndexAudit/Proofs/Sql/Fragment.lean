import IndexAudit.Proofs.Sql.Comment

/-!
SQL texts put together from fragments.

A fragment that leaves nothing open is tokenized by itself, whatever follows on the next line. A
semicolon on a line of its own ends its last statement, so the indexes that it defines are followed
by those of the fragments behind it.
-/

namespace IndexAudit

namespace SqlToken

/-! Texts that end inside of something. -/

/-- A literal, a quoted identifier or a block comment is still open where a text ends. -/
def EndsOpen (text : List Char) : Prop :=
  ∃ rest, Reaches rest text ∧ IsOpen rest

/-- The parts of a text that the tokenizer comes to stand in front of. -/
def stops (text : List Char) : List (List Char) :=
  match text with
  | [] => [[]]
  | c :: rest =>
    have := read_length c rest
    (c :: rest) :: stops (read c rest).2
termination_by text.length

/-- The tokenizer comes to its stops and to nothing else. -/
theorem mem_stops_iff {rest text : List Char} : rest ∈ stops text ↔ Reaches rest text := by
  -- One step of the tokenizer for one of the relation.
  fun_induction stops text with
  | case1 =>
    rw [List.mem_singleton]
    constructor
    · rintro rfl
      exact .here
    · rintro ⟨⟩
      rfl
  | case2 c more shorter ih =>
    rw [List.mem_cons, ih]
    constructor
    · rintro (rfl | later)
      · exact .here
      · exact .on later
    · rintro (_ | later)
      · exact .inl rfl
      · exact .inr later

/-- A string literal is left open if it does not end in front of one more character. -/
theorem afterString_space_iff {text : List Char} :
    afterString (text ++ [' ']) = [] ↔ ∃ inside, text = doubled inside := by
  constructor
  · intro ends
    rcases afterString_cases text with ⟨inside, same, single⟩ | ⟨inside, same, -⟩
    -- The quote that ends the literal is not doubled by the character behind it.
    · have behind : (afterString text ++ [' ']).head? ≠ some '\'' := by
        cases after : afterString text with
        | nil => simp
        | cons d after => simpa [after] using single
      rw [same, List.append_assoc, afterString_doubled, List.cons_append,
        afterString_quote behind] at ends
      simp at ends
    · exact ⟨inside, same⟩
  · rintro ⟨inside, rfl⟩
    rw [afterString_doubled, afterString_cons (by decide), afterString]

/-- What is left open is told by what it begins with. -/
theorem isOpen_cons_iff {c : Char} {rest : List Char} :
    IsOpen (c :: rest) ↔ c = '\'' ∧ afterString (rest ++ [' ']) = [] ∨
      (c = '"' ∨ c = '\x60') ∧ c ∉ rest ∨
      c = '/' ∧ rest.head? = some '*' ∧ ¬ ['*', '/'] <:+: rest.tail := by
  rw [afterString_space_iff]
  -- A string, a quoted identifier and a comment, each told by its first character.
  constructor
  · rintro (_ | ⟨mark, apart⟩ | inside)
    · exact .inl ⟨rfl, _, rfl⟩
    · exact .inr (.inl ⟨mark, apart⟩)
    · exact .inr (.inr ⟨rfl, rfl, inside⟩)
  · rintro (⟨rfl, inside, rfl⟩ | ⟨mark, apart⟩ | ⟨rfl, star, inside⟩)
    · exact .string
    · exact .quoted mark apart
    · obtain ⟨body, rfl⟩ := List.head?_eq_some_iff.mp star
      exact .comment inside

instance (text : List Char) : Decidable (IsOpen text) :=
  match text with
  | [] => isFalse nofun
  | _ :: _ => decidable_of_iff _ isOpen_cons_iff.symm

/-- Whether a text ends open is decided by looking at each stop. -/
instance (text : List Char) : Decidable (EndsOpen text) :=
  decidable_of_iff (∃ rest ∈ stops text, IsOpen rest) (by simp only [mem_stops_iff, EndsOpen])

/-! Tokens and statements at a seam. -/

/-- A text that leaves nothing open has its own tokens in front of another line. -/
theorem tokenize_line {text : List Char} (closed : ¬ EndsOpen text) (after : List Char) :
    tokenize (text ++ '\n' :: after) = tokenize text ++ tokenize after := by
  -- Each step is taken as without the line, since nothing but the end of a text leaves it open.
  match text with
  | [] => rw [List.nil_append, tokenize_blank (by decide), tokenize, List.nil_append]
  | c :: more =>
    have shorter := read_length c more
    obtain ⟨chars, whole, step⟩ := readsAs_read c more
    have later : ¬ EndsOpen (read c more).2 := by
      rintro ⟨rest, reached, isOpen⟩
      exact closed ⟨rest, .on reached, isOpen⟩
    have goesOn : (read c more).2 ++ [] = [] → ¬ IsOpen chars := by
      intro last isOpen
      rw [List.append_nil] at last
      rw [last, List.append_nil] at whole
      exact closed ⟨_, .here, whole ▸ isOpen⟩
    rw [← List.append_nil (read c more).2] at step
    have broken : tokenize (chars ++ ((read c more).2 ++ '\n' :: after)) =
        (read c more).1.toList ++ tokenize ((read c more).2 ++ '\n' :: after) :=
      tokenize_readsAs (step.lineBreak goesOn)
    rw [List.append_nil] at step
    rw [whole, List.append_assoc, broken, tokenize_line later after, tokenize_readsAs step,
      List.append_assoc]
termination_by text.length

/-- A semicolon on a line of its own is a token between those of the texts around it. -/
theorem tokenize_seam {front : List Char} (closed : ¬ EndsOpen front) (back : List Char) :
    tokenize (front ++ ['\n', ';', '\n'] ++ back) =
      tokenize front ++ .punctuation ';' :: tokenize back := by
  -- The text in front ends at the line break, and the semicolon stands alone.
  have semicolon : tokenize (';' :: '\n' :: back) = .punctuation ';' :: tokenize ('\n' :: back) :=
    @tokenize_readsAs _ [';'] _ (.token (.punctuation (by decide)))
  have lines : front ++ ['\n', ';', '\n'] ++ back = front ++ '\n' :: ';' :: '\n' :: back := by simp
  rw [lines, tokenize_line closed, semicolon, tokenize_blank (by decide)]

/-- The statements in front of a semicolon are followed by those behind it. -/
theorem statements_seam (front back : List SqlToken) :
    statements (front ++ .punctuation ';' :: back) = statements front ++ statements back := by
  -- A list is divided at the semicolon, and empty statements are left out of either part.
  rw [statements, List.splitOn_append_cons_self, List.filter_append]
  rfl

end SqlToken

namespace IndexStatement

open SqlToken

/-- The indexes of a text come in front of those of a text behind it. -/
theorem scan_seam {front : List Char} (closed : ¬ EndsOpen front) (back : List Char)
    (file : String) :
    scan (front ++ ['\n', ';', '\n'] ++ back) file = scan front file ++ scan back file := by
  -- Neither side hangs on the search for defining words, which may pass over one text alone.
  rw [scan_eq, scan_eq, scan_eq, tokenize_seam closed, statements_seam, List.flatMap_append]

/-- Fragments between semicolons define the indexes that each of them defines, one after another. -/
theorem scan_joined {fragments : List (List Char)}
    (closed : ∀ fragment ∈ fragments, ¬ EndsOpen fragment) (file : String) :
    scan (['\n', ';', '\n'].intercalate fragments) file = fragments.flatMap (scan · file) := by
  induction fragments with
  | nil => rw [List.intercalate_nil, scan_eq, tokenize]; rfl
  | cons first rest ih =>
    obtain ⟨here, later⟩ := List.forall_mem_cons.mp closed
    -- One fragment is scanned by itself, and a seam divides the first from the others.
    cases rest with
    | nil => simp
    | cons second rest =>
      rw [List.intercalate_cons_cons, scan_seam here, ih later]
      rfl

/-- Fragments with comments, literals and a quoted semicolon, two of which define an index. -/
def fragmentTexts : List (List Char) :=
  ["CREATE INDEX a ON t (b) -- it's done", "SELECT ';' /* create */ FROM t;", "",
    "alter TABLE \"x;y\" ADD UNIQUE (c), ADD PRIMARY KEY (d)"].map String.toList

/-- An index and two keys are found, and no semicolon inside a fragment cuts one off. -/
theorem scan_joined_fragmentTexts :
    (∀ fragment ∈ fragmentTexts, ¬ EndsOpen fragment) ∧
      scan (['\n', ';', '\n'].intercalate fragmentTexts) "V1.sql" =
        [⟨"t", "b", "a", "V1.sql", false, false, 0⟩,
          ⟨"x;y", "c", "x;y_c_key", "V1.sql", true, false, 0⟩,
          ⟨"x;y", "d", "x;y_pkey", "V1.sql", true, false, 0⟩] := by
  have closed : ∀ fragment ∈ fragmentTexts, ¬ EndsOpen fragment := by decide +kernel
  refine ⟨closed, (scan_joined closed "V1.sql").trans ?_⟩
  -- The fragments are taken as lists: to decode them as strings takes far longer.
  simp only [fragmentTexts, List.map_cons, List.map_nil, String.reduceToList]
  decide +kernel

end IndexStatement

end IndexAudit
