import IndexAudit.Proofs.Config.Reference
import IndexAudit.Proofs.Text.Search

/-!
References to the environment, replaced one name after another or all at once.

The names are those of the text as it was, but each one is replaced wherever it stands by then, also
in a value that an earlier one has brought in.
-/

namespace IndexAudit

namespace Environment

/-- A text with the value of its variable in place of each reference, all of them at once. -/
def expandAtOnce (environment : Environment) (text : List Char) : List Char :=
  replaceReferences environment.text? text

/-- The names of the references behind the first one with a name. -/
def referencesBehind (text name : List Char) : List (List Char) :=
  ((references text).dropWhile (· ≠ name)).tail

/-- A text in which no reference can begin and end behind it: what follows stands for itself. -/
inductive IsClosed : List Char → Prop
  | nil : IsClosed []
  | char {dollars : Nat} {c : Char} {rest : List Char} (plain : c ≠ '$')
      (apart : dollars = 0 ∨ c ≠ '{') (later : IsClosed rest) :
      IsClosed (List.replicate dollars '$' ++ c :: rest)
  | reference {name rest : List Char} (simple : '$' ∉ name) (inside : '}' ∉ name)
      (later : IsClosed rest) : IsClosed (Environment.reference name ++ rest)

/--
A text with the value of its variable in place of each reference, and in that value the references
of the names that stand behind the first reference of this one.
-/
def expandInTurn (environment : Environment) (text : List Char) : List Char :=
  replaceReferences (fun name =>
    (environment.text? name).map ((referencesBehind text name).foldl environment.substitute)) text

/-! ### One name -/

section Replace

variable {name value : List Char} {pieces : List Piece}

/-- A name without braces is read in no other reference that has no second dollar sign. -/
theorem replaceAll_reference_ne {other : List Char} (apart : other ≠ name) (inside : '}' ∉ name)
    (simple : '$' ∉ other) (otherInside : '}' ∉ other) (rest : List Char) :
    replaceAll '$' ('{' :: (name ++ ['}'])) value (reference other ++ rest) =
      reference other ++ replaceAll '$' ('{' :: (name ++ ['}'])) value rest := by
  -- Both names end at their first brace, so two of them at one place are the same.
  have absent : afterStart? ('{' :: (name ++ ['}'])) ('{' :: (other ++ ['}']) ++ rest) = none := by
    rw [Option.eq_none_iff_forall_ne_some]
    intro after found
    have whole := afterStart?_eq_some_iff.mp found
    simp only [List.cons_append, List.append_assoc, List.nil_append, List.cons.injEq,
      true_and] at whole
    have span := span_brace inside after
    rw [whole, span_brace otherInside] at span
    exact apart (Prod.mk.inj span).1
  -- Without a second dollar sign the pattern begins nowhere inside of the other reference.
  have noDollar : '$' ∉ '{' :: (other ++ ['}']) := by simp [simple]
  rw [reference, List.cons_append, replaceAll_cons_none absent,
    replaceAll_append_of_notMem noDollar]
  rfl

/-- A reference of the name is replaced. -/
theorem replaceAll_reference (rest : List Char) :
    replaceAll '$' ('{' :: (name ++ ['}'])) value (reference name ++ rest) =
      value ++ replaceAll '$' ('{' :: (name ++ ['}'])) value rest :=
  replaceAll_pattern rest

/-- What no reference begins in is left as it is where references are filled. -/
theorem prefix_spell_fill {texts : List Char → Option (List Char)} {start : List Char}
    (simple : '$' ∉ start) (begins : start <+: spell pieces) :
    start <+: spell (fill texts pieces) := by
  induction pieces generalizing start with
  | nil => exact begins
  | cons piece pieces ih =>
    cases start with
    | nil => exact List.nil_prefix
    | cons c start =>
      obtain ⟨notHere, later⟩ := List.ne_and_not_mem_of_not_mem_cons simple
      cases piece with
      | char d =>
        obtain ⟨rfl, behind⟩ := List.cons_prefix_cons.mp begins
        exact List.cons_prefix_cons.mpr ⟨rfl, ih later behind⟩
      -- A reference begins with a dollar sign, and there is none.
      | reference other => exact absurd (List.cons_prefix_cons.mp begins).1.symm notHere

/-- A name is filled with its value, and nothing else. -/
def only (name value : List Char) (other : List Char) : Option (List Char) :=
  if other = name then some value else none

/--
References of a name are replaced, and nothing else is, if what comes out in the end holds none.

Nothing has the form of a reference before the others are filled that would not have it afterwards.
-/
theorem replaceAll_spell {texts : List Char → Option (List Char)} (simple : '$' ∉ name)
    (inside : '}' ∉ name) (clean : ∀ other, .reference other ∈ pieces → '$' ∉ other ∧ '}' ∉ other)
    (absent : ¬ reference name <:+: spell (fill texts pieces)) :
    replaceAll '$' ('{' :: (name ++ ['}'])) value (spell pieces) =
      spell (fill (only name value) pieces) := by
  induction pieces with
  | nil => exact replaceAll_nil
  | cons piece pieces ih =>
    cases piece with
    | char c =>
      have later := ih (fun other member => clean other (List.mem_cons_of_mem _ member))
        fun inner => absent (inner.trans (List.suffix_cons c _).isInfix)
      rw [fill_char, spell_cons, spell_cons, ← later]
      -- A dollar sign on its own could begin the pattern only together with what stands behind it.
      by_cases dollar : c = '$'
      · subst dollar
        refine replaceAll_cons_none (Option.eq_none_iff_forall_ne_some.mpr fun after found => ?_)
        have begins : '{' :: (name ++ ['}']) <+: spell pieces :=
          ⟨after, afterStart?_eq_some_iff.mp found⟩
        -- What completes it has no dollar sign, so it would still be there in the end.
        have kept := @prefix_spell_fill _ texts _ (by simp [simple]) begins
        exact absent (List.cons_prefix_cons.mpr ⟨rfl, kept⟩).isInfix
      · exact replaceAll_cons_ne dollar _
    | reference other =>
      obtain ⟨otherSimple, otherInside⟩ := clean other List.mem_cons_self
      -- The rest of the pieces is written at the end, filled or not.
      have later := ih (fun other member => clean other (List.mem_cons_of_mem _ member))
          fun inner => by
        refine absent (inner.trans ?_)
        cases filled : texts other with
        | none =>
          rw [fill_none filled]
          exact (List.suffix_append _ _).isInfix
        | some text =>
          rw [fill_some filled, spell_append]
          exact (List.suffix_append _ _).isInfix
      rw [spell_cons, Piece.text]
      by_cases same : other = name
      · subst same
        rw [replaceAll_reference, later, fill_some (if_pos rfl), spell_append, spell_chars]
      · rw [replaceAll_reference_ne same inside otherSimple otherInside, later,
          fill_none (if_neg same), spell_cons]
        rfl

end Replace

section Names

variable {environment : Environment} {text name : List Char}

/-- Nothing is replaced for a variable that is not set. -/
theorem substitute_of_none (unset : environment.text? name = none) :
    environment.substitute text name = text := by
  -- A variable that is not set is not looked for.
  rw [substitute, Option.map_eq_none_iff.mp unset]

/-- The references of a variable that is set are replaced by its value. -/
theorem substitute_of_some {value : List Char} (set : environment.text? name = some value) :
    environment.substitute text name = replaceAll '$' ('{' :: (name ++ ['}'])) value text := by
  -- The value is found under the name, and put in wherever the reference stands.
  obtain ⟨found, known, rfl⟩ := Option.map_eq_some_iff.mp set
  rw [substitute, known]
  rfl

/-- References filled one name after another are filled as all at once. -/
theorem fill_only {value : List Char} (set : environment.text? name = some value)
    (pieces : List Piece) :
    fill environment.text? (fill (only name value) pieces) = fill environment.text? pieces := by
  induction pieces with
  | nil => rfl
  | cons piece pieces ih =>
    cases piece with
    | char c => rw [fill_char, fill_char, fill_char, ih]
    | reference other =>
      by_cases same : other = name
      -- The value is characters by then, so nothing more is filled in it.
      · subst same
        rw [fill_some (if_pos rfl), fill_append, fill_chars, fill_some set, ih]
      · rw [fill_none (if_neg same)]
        cases known : environment.text? other with
        | none => rw [fill_none known, fill_none known, ih]
        | some text => rw [fill_some known, fill_some known, ih]

/-- One name after another is replaced as all at once, if no reference of one comes out of it. -/
theorem foldl_substitute_spell {names : List (List Char)} {pieces : List Piece}
    (covered : ∀ name, .reference name ∈ pieces → name ∈ names ∧ environment.text? name ≠ none)
    (inside : ∀ name ∈ names, '}' ∉ name)
    (simple : ∀ name ∈ names, environment.text? name ≠ none → '$' ∉ name)
    (absent : ∀ name ∈ names, environment.text? name ≠ none →
      ¬ reference name <:+: spell (fill environment.text? pieces)) :
    names.foldl environment.substitute (spell pieces) = spell (fill environment.text? pieces) := by
  -- By the names that are left. The pieces that are left refer to these only, and what is filled
  -- at the end stays the same.
  induction names generalizing pieces with
  | nil =>
    have same := @fill_congr environment.text? (fun _ => none) pieces
      fun name member => absurd (covered name member).1 List.not_mem_nil
    rw [same, spell_fill_self fun _ _ known => by cases known]
    rfl
  | cons name names ih =>
    obtain ⟨insideHere, insideLater⟩ := List.forall_mem_cons.mp inside
    obtain ⟨simpleHere, simpleLater⟩ := List.forall_mem_cons.mp simple
    obtain ⟨absentHere, absentLater⟩ := List.forall_mem_cons.mp absent
    rw [List.foldl_cons]
    cases known : environment.text? name with
    | none =>
      rw [substitute_of_none known]
      refine ih (fun other member => ?_) insideLater simpleLater absentLater
      obtain ⟨listed, set⟩ := covered other member
      refine ⟨(List.mem_cons.mp listed).resolve_left ?_, set⟩
      rintro rfl
      exact set known
    | some value =>
      have set : environment.text? name ≠ none := by simp [known]
      have clean : ∀ other, .reference other ∈ pieces → '$' ∉ other ∧ '}' ∉ other :=
        fun other member => ⟨simple other (covered other member).1 (covered other member).2,
          inside other (covered other member).1⟩
      -- One step replaces the references of one name, and leaves the outcome to the others.
      rw [substitute_of_some known, replaceAll_spell (simpleHere set) insideHere clean
        (absentHere set), ← fill_only known pieces]
      refine ih (fun other member => ?_) insideLater simpleLater ?_
      · obtain ⟨stands, unfilled⟩ := reference_mem_fill.mp member
        obtain ⟨listed, set⟩ := covered other stands
        refine ⟨(List.mem_cons.mp listed).resolve_left ?_, set⟩
        rintro rfl
        rw [only, if_pos rfl] at unfilled
        cases unfilled
      · rwa [fill_only known]

/-- References to variables that are not set are characters like others. -/
def unset (environment : Environment) (name : List Char) : Option (List Char) :=
  if environment.text? name = none then some (reference name) else none

/-- With references to variables that are not set as characters, the others are filled alike. -/
theorem spell_fill_unset (pieces : List Piece) :
    spell (fill environment.text? (fill environment.unset pieces)) =
      spell (fill environment.text? pieces) := by
  induction pieces with
  | nil => rfl
  | cons piece pieces ih =>
    cases piece with
    | char c => rw [fill_char, fill_char, fill_char, spell_cons, spell_cons, ih]
    | reference name =>
      -- Only a reference without a value is spelled out, and stays one.
      cases known : environment.text? name with
      | none =>
        rw [fill_some (if_pos known), fill_append, fill_chars, spell_append, spell_chars, ih,
          fill_none known, spell_cons]
        rfl
      | some value =>
        rw [fill_none (if_neg (by simp [known])), fill_some known, fill_some known, spell_append,
          spell_append, ih]

/-- All at once is one name after another, if no reference of one comes out in the end. -/
theorem expand_eq_expandAtOnce
    (simple : ∀ name ∈ references text, environment.text? name ≠ none → '$' ∉ name)
    (absent : ∀ name ∈ references text, environment.text? name ≠ none →
      ¬ reference name <:+: environment.expandAtOnce text) :
    environment.expand text = environment.expandAtOnce text := by
  -- References that are not replaced count as characters, so that each one left is replaced.
  have spelled : spell (fill environment.unset (pieces text)) = text := by
    rw [spell_fill_self, (spell_pieces text).1]
    intro name found known
    rw [unset] at known
    split at known
    · exact (Option.some.inj known).symm
    · cases known
  have run := @foldl_substitute_spell environment (references text)
    (fill environment.unset (pieces text)) (fun name member => ?_) (fun name listed => ?_) simple ?_
  · rwa [spelled, spell_fill_unset] at run
  · obtain ⟨stands, set⟩ := reference_mem_fill.mp member
    refine ⟨mem_references.mpr stands, fun unset => ?_⟩
    rw [Environment.unset, if_pos unset] at set
    cases set
  · exact ((spell_pieces text).2 name (mem_references.mp listed)).2
  · rwa [spell_fill_unset]

end Names

/-! ### Closed texts -/

section Closed

variable {name value : List Char}

/-- A reference begins neither with another character nor in a run of dollar signs. -/
theorem readReference?_dollars {dollars : Nat} {c : Char} (plain : c ≠ '$')
    (apart : dollars = 0 ∨ c ≠ '{') (rest : List Char) :
    readReference? (List.replicate dollars '$' ++ c :: rest) = none := by
  -- A reference begins with one dollar sign and a brace at once; a second sign is no brace.
  rcases dollars with _ | _ | dollars
  · simp [readReference?, plain]
  · simp [readReference?, apart.resolve_left]
  · simp [List.replicate_succ, readReference?]

/-- A run of dollar signs that does not begin a reference is read character by character. -/
theorem pieces_dollars {dollars : Nat} {c : Char} (plain : c ≠ '$') (apart : dollars = 0 ∨ c ≠ '{')
    (rest : List Char) :
    pieces (List.replicate dollars '$' ++ c :: rest) =
      (List.replicate dollars '$' ++ [c]).map .char ++ pieces rest := by
  have unread := readReference?_dollars plain apart rest
  induction dollars with
  | zero => exact pieces_char unread
  -- Behind one dollar sign there is another one, or a character that is no brace.
  | succ dollars ih =>
    have brace : c ≠ '{' := apart.resolve_left (Nat.succ_ne_zero _)
    rw [List.replicate_succ, List.cons_append] at unread ⊢
    rw [pieces_char unread, ih (.inr brace) (readReference?_dollars plain (.inr brace) rest)]
    rfl

/-- Nothing is replaced in a run of dollar signs that does not begin a reference. -/
theorem replaceAll_dollars {dollars : Nat} {c : Char} (plain : c ≠ '$')
    (apart : dollars = 0 ∨ c ≠ '{') (more rest : List Char) :
    replaceAll '$' ('{' :: more) value (List.replicate dollars '$' ++ c :: rest) =
      List.replicate dollars '$' ++ c :: replaceAll '$' ('{' :: more) value rest := by
  induction dollars with
  | zero => exact replaceAll_cons_ne plain rest
  | succ dollars ih =>
    have brace : c ≠ '{' := apart.resolve_left (Nat.succ_ne_zero _)
    -- Behind this sign comes another one or the character, but no brace.
    have absent : afterStart? ('{' :: more) (List.replicate dollars '$' ++ c :: rest) = none := by
      cases dollars with
      | zero => simp [afterStart?, brace.symm]
      | succ dollars => simp [List.replicate_succ, afterStart?]
    rw [List.replicate_succ, List.cons_append, replaceAll_cons_none absent, ih (.inr brace),
      List.cons_append]

namespace IsClosed

/-- Closed texts one behind the other are closed. -/
theorem append {front back : List Char} (closed : IsClosed front) (behind : IsClosed back) :
    IsClosed (front ++ back) := by
  -- What comes first stays first, so the induction is on how the front is closed.
  induction closed with
  | nil => exact behind
  | char plain apart _ ih =>
    rw [List.append_assoc, List.cons_append]
    exact .char plain apart ih
  | reference simple inside _ ih =>
    rw [List.append_assoc]
    exact .reference simple inside ih

/-- What stands behind a closed text does not matter to what is replaced in it. -/
theorem replaceAll_append {front : List Char} (closed : IsClosed front) (inside : '}' ∉ name)
    (back : List Char) :
    replaceAll '$' ('{' :: (name ++ ['}'])) value (front ++ back) =
      replaceAll '$' ('{' :: (name ++ ['}'])) value front ++
        replaceAll '$' ('{' :: (name ++ ['}'])) value back := by
  induction closed with
  | nil => rw [replaceAll_nil, List.nil_append, List.nil_append]
  | char plain apart _ ih =>
    rw [List.append_assoc, List.cons_append, replaceAll_dollars plain apart,
      replaceAll_dollars plain apart, ih, List.append_assoc, List.cons_append]
  -- Each reference ends at its own brace, so none reaches into what stands behind.
  | @reference other _ simple otherInside _ ih =>
    rw [List.append_assoc]
    by_cases same : other = name
    · subst same
      rw [replaceAll_reference, replaceAll_reference, ih, List.append_assoc]
    · rw [replaceAll_reference_ne same inside simple otherInside,
        replaceAll_reference_ne same inside simple otherInside, ih, List.append_assoc]

/-- A closed text stays closed where closed texts are brought in. -/
theorem replaceAll {text : List Char} (closed : IsClosed text) (brings : IsClosed value)
    (inside : '}' ∉ name) :
    IsClosed (IndexAudit.replaceAll '$' ('{' :: (name ++ ['}'])) value text) := by
  induction closed with
  | nil =>
    rw [replaceAll_nil]
    exact .nil
  | char plain apart _ ih =>
    rw [replaceAll_dollars plain apart]
    exact .char plain apart ih
  -- A reference is replaced as a whole or not at all, as its name has no end in it.
  | @reference other _ simple otherInside _ ih =>
    by_cases same : other = name
    · subst same
      rw [replaceAll_reference]
      exact brings.append ih
    · rw [replaceAll_reference_ne same inside simple otherInside]
      exact .reference simple otherInside ih

end IsClosed

variable {environment : Environment}

/-- Names are replaced in a closed text whatever stands behind it. -/
theorem IsClosed.foldl_append {names : List (List Char)}
    (values : ∀ name ∈ names, ∀ value ∈ environment.text? name, IsClosed value)
    (inside : ∀ name ∈ names, '}' ∉ name) {front : List Char} (closed : IsClosed front)
    (back : List Char) :
    names.foldl environment.substitute (front ++ back) =
      names.foldl environment.substitute front ++ names.foldl environment.substitute back := by
  induction names generalizing front back with
  | nil => rfl
  | cons name names ih =>
    obtain ⟨valueHere, valuesLater⟩ := List.forall_mem_cons.mp values
    obtain ⟨insideHere, insideLater⟩ := List.forall_mem_cons.mp inside
    -- One name leaves the front closed, so that the next one finds both parts apart again.
    simp only [List.foldl_cons]
    cases known : environment.text? name with
    | none =>
      rw [substitute_of_none known, substitute_of_none known, substitute_of_none known]
      exact ih valuesLater insideLater closed back
    | some value =>
      rw [substitute_of_some known, substitute_of_some known, substitute_of_some known,
        closed.replaceAll_append insideHere]
      exact ih valuesLater insideLater (closed.replaceAll (valueHere value known) insideHere) _

/-- Nothing is replaced in what does not begin a reference. -/
theorem foldl_dollars {dollars : Nat} {c : Char} (plain : c ≠ '$') (apart : dollars = 0 ∨ c ≠ '{')
    (names : List (List Char)) :
    names.foldl environment.substitute (List.replicate dollars '$' ++ [c]) =
      List.replicate dollars '$' ++ [c] := by
  induction names with
  | nil => rfl
  | cons name names ih =>
    -- A name that is not set is left, and one that is set is nowhere in the text.
    have same : environment.substitute (List.replicate dollars '$' ++ [c]) name =
        List.replicate dollars '$' ++ [c] := by
      cases known : environment.text? name with
      | none => exact substitute_of_none known
      | some value => rw [substitute_of_some known, replaceAll_dollars plain apart, replaceAll_nil]
    rw [List.foldl_cons, same, ih]

/-- What stands for a name in the end, where names are replaced one after another. -/
def inTurn (environment : Environment) (names : List (List Char)) (name : List Char) :
    Option (List Char) :=
  if names.contains name then
    (environment.text? name).map ((names.dropWhile (· ≠ name)).tail.foldl environment.substitute)
  else none

/-- A reference is replaced at the first name that is its own, and its value by the later ones. -/
theorem foldl_reference {names : List (List Char)} (inside : ∀ name ∈ names, '}' ∉ name)
    (simple : '$' ∉ name) (nameInside : '}' ∉ name) :
    names.foldl environment.substitute (reference name) =
      (environment.inTurn names name).getD (reference name) := by
  induction names with
  | nil => rfl
  | cons first names ih =>
    obtain ⟨insideHere, insideLater⟩ := List.forall_mem_cons.mp inside
    rw [List.foldl_cons]
    -- The first name that is its own brings the value in, and all later ones go through that.
    by_cases same : first = name
    · subst same
      cases known : environment.text? first with
      | none =>
        rw [substitute_of_none known, ih insideLater]
        simp [inTurn, known]
      | some value =>
        have replaced := @replaceAll_reference first value []
        rw [List.append_nil, replaceAll_nil, List.append_nil] at replaced
        rw [substitute_of_some known, replaced]
        simp [inTurn, known]
    · have kept : environment.substitute (reference name) first = reference name := by
        cases known : environment.text? first with
        | none => exact substitute_of_none known
        | some value =>
          have kept := @replaceAll_reference_ne first value name (Ne.symm same) insideHere simple
            nameInside []
          rw [List.append_nil, replaceAll_nil, List.append_nil] at kept
          rw [substitute_of_some known, kept]
      rw [kept, ih insideLater]
      simp [inTurn, same, Ne.symm same]

/-- Braces with no name between them are no reference. -/
theorem pieces_nameless (rest : List Char) :
    pieces (reference [] ++ rest) = (reference []).map .char ++ pieces rest := by
  -- No reference begins at any of the three characters, so each is a piece of its own.
  have nameless : readReference? (reference [] ++ rest) = none := by
    simp [reference, readReference?]
  have opening : readReference? ('{' :: '}' :: rest) = none := by simp [readReference?]
  have closing : readReference? ('}' :: rest) = none := by simp [readReference?]
  simp only [reference, List.nil_append, List.cons_append] at nameless ⊢
  rw [pieces_char nameless, pieces_char opening, pieces_char closing]
  rfl

/-- In a closed text, values are brought in and the names behind their own are replaced in them. -/
theorem IsClosed.foldl_eq {names : List (List Char)}
    (values : ∀ name ∈ names, ∀ value ∈ environment.text? name, IsClosed value)
    (inside : ∀ name ∈ names, '}' ∉ name) {text : List Char} (closed : IsClosed text) :
    names.foldl environment.substitute text =
      replaceReferences (environment.inTurn names) text := by
  -- Each part of a closed text goes through all names on its own.
  induction closed with
  | nil =>
    have twice := @IsClosed.foldl_append _ names values inside [] .nil []
    rw [List.append_nil, List.self_eq_append_right] at twice
    exact twice
  | @char dollars c rest plain apart _ ih =>
    have alone : IsClosed (List.replicate dollars '$' ++ [c]) := .char plain apart .nil
    have whole : List.replicate dollars '$' ++ c :: rest =
        List.replicate dollars '$' ++ [c] ++ rest := by simp
    rw [whole, IsClosed.foldl_append values inside alone, foldl_dollars plain apart, ih, ← whole,
      replaceReferences, replaceReferences, pieces_dollars plain apart, fill_append, fill_chars,
      spell_append, spell_chars]
  | @reference name rest simple nameInside _ ih =>
    have alone : IsClosed (Environment.reference name) := by
      simpa using IsClosed.reference simple nameInside .nil
    rw [IsClosed.foldl_append values inside alone, foldl_reference inside simple nameInside, ih,
      replaceReferences, replaceReferences]
    -- Braces with nothing between them are written like a reference, but are none.
    by_cases nameless : name = []
    · subst nameless
      have unset : environment.inTurn names [] = none := by
        have unset : environment.text? [] = none := rfl
        simp [inTurn, unset]
      rw [pieces_nameless, fill_append, fill_chars, spell_append, spell_chars, unset]
      rfl
    · rw [pieces_reference nameless nameInside]
      cases known : environment.inTurn names name with
      | none =>
        rw [fill_none known, spell_cons]
        rfl
      | some text =>
        rw [fill_some known, spell_append, spell_chars]
        rfl

/-- In a closed text, the names behind the one of a value are replaced in the value as well. -/
theorem IsClosed.expand_eq {text : List Char} (closed : IsClosed text)
    (values : ∀ name ∈ references text, ∀ value ∈ environment.text? name, IsClosed value) :
    environment.expand text = environment.expandInTurn text := by
  have inside : ∀ name ∈ references text, '}' ∉ name := fun name listed =>
    ((spell_pieces text).2 name (mem_references.mp listed)).2
  rw [expand, closed.foldl_eq values inside, replaceReferences, expandInTurn, replaceReferences]
  congr 1
  -- The names are those of the text itself, so each of its references is among them.
  refine fill_congr fun name member => ?_
  rw [inTurn, if_pos (List.contains_iff_mem.mpr (mem_references.mpr member))]
  rfl

end Closed

/--
References are replaced all at once, unless a reference comes out of it that is replaced as well.

The first part is about every text in which no reference begins inside of another one that is
replaced. In the second one, where neither the text nor a value ends inside of what could become a
reference, a value goes through the replacement of all names that come up behind its own.
-/
theorem expand_references (environment : Environment) (text : List Char) :
    ((∀ name ∈ references text, environment.text? name ≠ none → '$' ∉ name) →
      (∀ name ∈ references text, environment.text? name ≠ none →
        ¬ reference name <:+: environment.expandAtOnce text) →
      environment.expand text = environment.expandAtOnce text) ∧
    (IsClosed text →
      (∀ name ∈ references text, ∀ value ∈ environment.text? name, IsClosed value) →
      environment.expand text = environment.expandInTurn text) :=
  -- Both parts are shown above, each under its own conditions.
  ⟨expand_eq_expandAtOnce, IsClosed.expand_eq⟩

/-- A name that is not set is left alone; one behind a value that refers to it is not. -/
theorem expand_references_host :
    let environment : Environment := [("HOST", "db"), ("URL", "${HOST}/x")]
    ((∀ name ∈ references "${HOST}:${PORT}".toList, environment.text? name ≠ none → '$' ∉ name) ∧
      (∀ name ∈ references "${HOST}:${PORT}".toList, environment.text? name ≠ none →
        ¬ reference name <:+: environment.expandAtOnce "${HOST}:${PORT}".toList) ∧
      environment.expand "${HOST}:${PORT}".toList = "db:${PORT}".toList) ∧
    IsClosed "${URL} ${HOST}".toList ∧
      (∀ name ∈ references "${URL} ${HOST}".toList, ∀ value ∈ environment.text? name,
        IsClosed value) ∧
      environment.expand "${URL} ${HOST}".toList = "db/x db".toList ∧
      environment.expandAtOnce "${URL} ${HOST}".toList = "${HOST}/x db".toList := by
  intro environment
  have simple : ∀ name ∈ references "${HOST}:${PORT}".toList,
      environment.text? name ≠ none → '$' ∉ name := by decide +kernel
  have absent : ∀ name ∈ references "${HOST}:${PORT}".toList, environment.text? name ≠ none →
      ¬ reference name <:+: environment.expandAtOnce "${HOST}:${PORT}".toList := by decide +kernel
  have closed : IsClosed "${URL} ${HOST}".toList := by
    have whole : "${URL} ${HOST}".toList = reference "URL".toList ++ (List.replicate 0 '$' ++
        ' ' :: (reference "HOST".toList ++ [])) := by decide +kernel
    rw [whole]
    exact .reference (by decide) (by decide) (.char (by decide) (.inl rfl)
      (.reference (by decide) (by decide) .nil))
  have values : ∀ name ∈ references "${URL} ${HOST}".toList, ∀ value ∈ environment.text? name,
      IsClosed value := by
    -- The two variables that are referred to; the value of the first refers to the second.
    have names : references "${URL} ${HOST}".toList = ["URL".toList, "HOST".toList] := by
      decide +kernel
    have url : environment.text? "URL".toList = some (reference "HOST".toList ++
        (List.replicate 0 '$' ++ '/' :: (List.replicate 0 '$' ++ 'x' :: []))) := by decide +kernel
    have host : environment.text? "HOST".toList = some (List.replicate 0 '$' ++
        'd' :: (List.replicate 0 '$' ++ 'b' :: [])) := by decide +kernel
    rw [names]
    refine List.forall_mem_cons.mpr ⟨?_, List.forall_mem_singleton.mpr ?_⟩
    · intro value brought
      obtain rfl := Option.some.inj (url.symm.trans brought)
      exact .reference (by decide) (by decide) (.char (by decide) (.inl rfl)
        (.char (by decide) (.inl rfl) .nil))
    · intro value brought
      obtain rfl := Option.some.inj (host.symm.trans brought)
      exact .char (by decide) (.inl rfl) (.char (by decide) (.inl rfl) .nil)
  refine ⟨⟨simple, absent, ?_⟩, closed, values, ?_, by decide +kernel⟩
  · rw [(expand_references environment _).1 simple absent]
    decide +kernel
  · rw [(expand_references environment _).2 closed values]
    decide +kernel

end Environment

end IndexAudit
