import IndexAudit.Entity
import IndexAudit.Proofs.Code.Lockstep
import IndexAudit.Query.Repository

/-!
Lines that end in a carriage return and a line break are read as lines that end in a line break.

A carriage return is passed over wherever a scan goes, but stands in front of it where the line
break would. Nothing that a scan looks for goes on behind either of them, except what a backslash
protects.
-/

namespace IndexAudit

/-- A text with a carriage return in front of each line break. -/
def withReturns (text : List Char) : List Char :=
  text.flatMap fun c => if c = '\n' then ['\r', '\n'] else [c]

/-- A text begins as before, unless with a line break. -/
theorem head_withReturns (text : List Char) {mark : Char} (inLine : mark ≠ '\n')
    (notReturn : mark ≠ '\r') :
    text.head? = some mark ↔ (withReturns text).head? = some mark := by
  cases text with
  | nil => rfl
  | cons c rest =>
    -- Only a line break gets anything put in front of it.
    by_cases ends : c = '\n'
    · simp [withReturns, ends, inLine.symm, notReturn.symm]
    · simp [withReturns, ends]

/-- As many quotes come next as before. -/
theorem take_withReturns (text : List Char) (count : Nat) :
    text.take count = List.replicate count '"' ↔
      (withReturns text).take count = List.replicate count '"' := by
  induction count generalizing text with
  | zero => simp
  | succ count ih =>
    -- A quote is no line break, so both texts go on with it or neither does.
    by_cases quote : text.head? = some '"'
    · obtain ⟨rest, rfl⟩ := List.head?_eq_some_iff.mp quote
      simpa [withReturns, List.replicate_succ] using ih rest
    · have changed := quote
      rw [head_withReturns text (by decide) (by decide)] at changed
      exact ⟨fun quotes => absurd (head_quotes quotes) quote,
        fun quotes => absurd (head_quotes quotes) changed⟩

namespace SourceState

/-- Where a scan stands in front of each character of a text, and what it has in front of it. -/
def places (state : SourceState) : List Char → List (SourceState × List Char)
  | [] => []
  | c :: rest =>
    (state, c :: rest) ::
      if c = '\n' then places state.afterLineBreak rest
      else if c = '\r' ∧ ¬ state.protects then places state rest
      else places (state.step c rest).2 rest

/-- Whether a plain string or a character literal goes on behind a backslash that ends its line. -/
def IsLeftOpen (place : SourceState × List Char) : Prop :=
  (place.1 = .string ∨ place.1 = .character) ∧ ['\\', '\n'] <+: place.2

/-- Whether a literal is left open at a place is decided by looking at two characters. -/
instance (place : SourceState × List Char) : Decidable (IsLeftOpen place) :=
  inferInstanceAs (Decidable (_ ∧ _))

variable {state : SourceState} {c : Char} {rest : List Char}

/-- A character that a backslash protects stands on the same line. -/
theorem head_protected (guarded : (state.step c rest).2.protects = true) :
    rest.head? ≠ some '\n' := by
  intro ended
  -- Only a backslash protects, in a string or a character literal, and never the end of its line.
  cases state with
  | string =>
    simp only [step] at guarded
    split_ifs at guarded <;> simp_all [protects]
  | character =>
    simp only [step] at guarded
    split_ifs at guarded <;> simp_all [protects]
  | lineComment => cases guarded
  | blockOpening => cases guarded
  | blockClosing => cases guarded
  | stringEscape => cases guarded
  | characterEscape => cases guarded
  | _ =>
    simp only [step] at guarded
    split_ifs at guarded <;> cases guarded

/-- A line break is protected by nothing. -/
theorem protects_afterLineBreak (state : SourceState) : state.afterLineBreak.protects = false := by
  -- Behind a line break no state is inside of an escape.
  cases state <;> rfl

/-- A character is read in front of a carriage return as in front of a line break. -/
theorem step_withReturns (closed : ¬ IsLeftOpen (state, c :: rest)) :
    state.step c (withReturns rest) = state.step c rest := by
  refine (SameAhead.step_eq ⟨fun _ _ => head_withReturns rest (by decide) (by decide),
    fun _ _ => head_withReturns rest (by decide) (by decide),
    fun _ => head_withReturns rest (by decide) (by decide), take_withReturns rest, ?_⟩).symm
  rintro plain rfl
  cases rest with
  | nil => rfl
  | cons d more =>
    -- A literal that a line break leaves open is ruled out, so no return comes next.
    have inLine : d ≠ '\n' := by
      rintro rfl
      exact closed ⟨plain, more, rfl⟩
    simp [withReturns, inLine]

/--
The pieces of a text are the same with carriage returns in front of its line breaks.

By induction on the text, from any place in front of which no line break is protected.
-/
theorem pieces_withReturns {text : List Char} (noReturn : '\r' ∉ text)
    (closed : ∀ place ∈ state.places text, ¬ IsLeftOpen place)
    (inLine : state.protects = true → text.head? ≠ some '\n') :
    state.pieces (withReturns text) = state.pieces text := by
  induction text generalizing state with
  | nil => rfl
  | cons c rest ih =>
    obtain ⟨notReturn, noReturnBehind⟩ := List.ne_and_not_mem_of_not_mem_cons noReturn
    have ih {state : SourceState} := @ih state noReturnBehind
    obtain ⟨here, later⟩ := List.forall_mem_cons.mp closed
    by_cases ends : c = '\n'
    · -- The carriage return is passed over, since nothing protects it.
      subst ends
      have free : ¬ state.protects = true := fun guarded => inLine guarded rfl
      have same := ih (by simpa using later) (by simp [protects_afterLineBreak])
      simpa [withReturns, pieces, free] using same
    have skipped : ¬ (c = '\r' ∧ ¬ state.protects = true) :=
      fun returns => notReturn returns.1.symm
    rw [if_neg ends, if_neg skipped] at later
    have same := ih later head_protected
    have first : withReturns (c :: rest) = c :: withReturns rest := by simp [withReturns, ends]
    simp only [first, pieces, if_neg ends, if_neg skipped, step_withReturns here, same]

end SourceState

/--
What is found in a source text is found in it with a carriage return in front of each line break.

The columns of a repository come in the same order, from the same lines.
A plain string or a character literal must not go on behind a backslash that ends its line.
-/
theorem found_withReturns {text : List Char} (noReturn : '\r' ∉ text)
    (closed : ∀ place ∈ SourceState.code.places text, ¬ SourceState.IsLeftOpen place)
    (file : String) (mappings : Mappings) :
    Repository.columns file mappings (withReturns text) = Repository.columns file mappings text ∧
      Entity.mappingOfText? (withReturns text) = Entity.mappingOfText? text := by
  -- Both read the lines of the text, and these are the same.
  have lines : SourceLine.ofText (withReturns text) = SourceLine.ofText text := by
    rw [SourceLine.ofText, SourceLine.ofText,
      SourceState.pieces_withReturns noReturn closed (by simp [SourceState.protects])]
  constructor
  · simp only [Repository.columns, lines]
  · simp only [Entity.mappingOfText?, lines]

/-- A repository with a comment, a raw string and a directive over several lines. -/
def ordersText : List Char :=
  ['\n'].intercalate ([
    "interface Orders : Repository<Order> \x7b /* all",
    "orders */ @Note(\"\"\"the \x7b",
    "first\"\"\")",
    "fun findByCode()",
    "// idxlint:ignore(\"code\")",
    "fun findByStateAndCode() \x7d"].map String.toList)

/-- The mapping of an entity with two fields. -/
def orderMapping : TableMapping :=
  .ofDeclared "Order" "orders" [("code", "code"), ("state", "state")]

/-- The columns of the methods come from the same lines, with carriage returns or without. -/
theorem found_withReturns_orders :
    '\r' ∉ ordersText ∧
      (∀ place ∈ SourceState.code.places ordersText, ¬ SourceState.IsLeftOpen place) ∧
      Repository.columns "Orders.kt" [orderMapping] (withReturns ordersText) =
        [⟨"orders", "code", "Orders.findByCode", "Orders.kt", 4, .derived⟩,
          ⟨"orders", "state", "Orders.findByStateAndCode", "Orders.kt", 6, .derived⟩] := by
  -- The text has no carriage return, and no literal is left open at the end of a line.
  have noReturn : '\r' ∉ ordersText := by decide +kernel
  have closed : ∀ place ∈ SourceState.code.places ordersText, ¬ SourceState.IsLeftOpen place := by
    decide +kernel
  have same := (found_withReturns noReturn closed "Orders.kt" [orderMapping]).1
  exact ⟨noReturn, closed, same.trans (by decide +kernel)⟩

end IndexAudit
