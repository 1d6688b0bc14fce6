import IndexAudit.Proofs.Offset.Annotation

/-!
The arguments of an annotation read at their byte offsets.

They are the parts of the text between its parentheses, in which literals are hidden anew.
-/

namespace IndexAudit

namespace AnnotationUse

/-- An argument with its offsets in the text between the parentheses. -/
abbrev Argument := (Nat × Nat) × List Glyph

/-- The arguments in the text between parentheses, each at its offsets. -/
def arguments? (code : List Glyph) : Option (List Argument) :=
  parts? ',' false 0 (width code) code

/-- The name that an argument is given by, cut out of it at the offset behind it. -/
def nameOf? (part : List Glyph) : Option (Option (List Char)) :=
  let text := part.dropWhile fun glyph => isBlank glyph.shown
  let size := width (text.takeWhile fun glyph => isIdentifierChar glyph.shown)
  if size = 0 then some none
  else do
    let behind ← from? size text
    -- The name is told by what stands behind it: one equals sign, but not two.
    match trimStart (Glyph.shownText behind) with
    | '=' :: '=' :: _ => some none
    | '=' :: _ => (before? size text).map fun name => some (Glyph.shownText name)
    | _ => some none

/-- The values of the string literals in an argument. -/
def valuesOf? (code : List Glyph) (argument : Argument) : Option (List (List Char)) :=
  Literal.valuesFrom? argument.1.2 code (width code + 1) argument.1.1

/-- The first string literal of the argument of a given name. -/
def stringArgumentFrom? (self : AnnotationUse) (name : List Char) : Option (Option (List Char)) :=
  match self.args with
  | none => some none
  | some args => do
    let code := Glyph.ofCode args
    let arguments ← arguments? code
    match ← arguments.findM? fun argument => (nameOf? argument.2).map (· == some name) with
    | none => some none
    | some argument => (valuesOf? code argument).map List.head?

/-- Whether the text of an argument has the value `true` behind its first equals sign. -/
def isTrue (part : List Glyph) : Bool :=
  match (Glyph.shownText part).dropWhile (· != '=') with
  | _ :: value => trim value == ['t', 'r', 'u', 'e']
  | [] => false

/-- Whether an argument of a given name is set to `true`. -/
def flagFrom? (self : AnnotationUse) (name : List Char) : Option Bool :=
  match self.args with
  | none => some false
  | some args => do
    let arguments ← arguments? (Glyph.ofCode args)
    arguments.anyM fun argument =>
      (nameOf? argument.2).map fun found => found == some name && isTrue argument.2

/-- Whether an argument is the positional one, or the one of the name `value`. -/
def isMain (name : Option (List Char)) : Bool :=
  match name with
  | none => true
  | some name => name == ['v', 'a', 'l', 'u', 'e']

/-- The main string value of an annotation. -/
def valueFrom? (self : AnnotationUse) : Option (Option (List Char)) :=
  match self.args with
  | none => some none
  | some args => do
    let code := Glyph.ofCode args
    let arguments ← arguments? code
    match ← arguments.findM? fun argument => (nameOf? argument.2).map isMain with
    | none => some none
    | some argument =>
      match ← valuesOf? code argument with
      | [] => some none
      | literals => some (some literals.flatten)

/-- The name of an argument is cut out of it without fail. -/
theorem nameOf?_eq (part : List Glyph) : nameOf? part = some (argumentName part) := by
  obtain ⟨text, trimmed⟩ : ∃ text, (part.dropWhile fun glyph => isBlank glyph.shown) = text := ⟨_, rfl⟩
  have shown : trimStart (Glyph.shownText part) = Glyph.shownText text := by
    rw [← trimmed, trimStart, Glyph.shownText, Glyph.shownText, List.dropWhile_map]
    rfl
  -- The text is a name and what is behind it; cut at the width of the name, it is the same two.
  obtain ⟨name, behind, whole, taken, left⟩ : ∃ name behind, text = name ++ behind ∧
      (text.takeWhile fun glyph => isIdentifierChar glyph.shown) = name ∧
      (text.dropWhile fun glyph => isIdentifierChar glyph.shown) = behind :=
    ⟨_, _, List.takeWhile_append_dropWhile.symm, rfl, rfl⟩
  have first : (Glyph.shownText text).takeWhile isIdentifierChar = Glyph.shownText name := by
    rw [← taken, Glyph.shownText, Glyph.shownText, List.takeWhile_map]
    rfl
  have second : (Glyph.shownText text).dropWhile isIdentifierChar = Glyph.shownText behind := by
    rw [← left, Glyph.shownText, Glyph.shownText, List.dropWhile_map]
    rfl
  rw [nameOf?, argumentName, shown, trimmed]
  simp only [taken, first, second]
  by_cases empty : name = []
  · simp [empty, Glyph.shownText]
  · have filled : width name ≠ 0 := fun none => empty (eq_nil_of_width none)
    have named : (Glyph.shownText name).isEmpty = false := by simpa [Glyph.shownText] using empty
    rw [if_neg filled, whole, from?_width, before?_width, named]
    simp only [Option.bind_eq_bind, Option.bind_some, Bool.false_eq_true, if_false, Option.map_some]
    split <;> simp_all

/-- The arguments are those that the text between the parentheses is divided into. -/
theorem exists_arguments (code : List Glyph) :
    ∃ arguments, arguments? code = some arguments ∧
      arguments.map (·.2) = Glyph.splitTop ',' false code ∧
      ∀ argument ∈ arguments, valuesOf? code argument = some (Literal.values argument.2) := by
  obtain ⟨arguments, found, parts, located⟩ :=
    exists_parts ',' false (·.shown = ',') (by decide) (by decide)
      (by decide) (fun _ comma => comma) [] code [] (by simp)
  simp only [width_nil, Nat.zero_add, List.nil_append, List.append_nil] at found located
  refine ⟨arguments, found, parts, fun argument listed => ?_⟩
  -- Behind an argument stands a comma, so no quotes run on from it.
  obtain ⟨front, back, whole, offsets, ends⟩ := located argument listed
  have apart : ∀ glyph ∈ back.head?, glyph.shown ≠ '"' := fun glyph first => by
    rw [ends glyph first]
    decide
  have within : width argument.2 < width code + 1 := by
    rw [whole, width_append, width_append]
    omega
  have values := Literal.valuesFrom?_width apart front _ within
  rw [← whole] at values
  rw [valuesOf?, offsets]
  exact values

/-- An argument is looked for by its name without fail. -/
theorem findM?_nameOf? (test : Option (List Char) → Bool) (arguments : List Argument) :
    (arguments.findM? fun argument => (nameOf? argument.2).map test) =
      some (arguments.find? fun argument => test (argumentName argument.2)) := by
  -- The name of each argument is read without fail, so the search is the plain one.
  simp only [nameOf?_eq, Option.map_some]
  exact List.findM?_pure _ _

variable (self : AnnotationUse)

/-- The first literal of the argument of a given name is read without fail. -/
theorem stringArgumentFrom?_eq (name : List Char) :
    self.stringArgumentFrom? name = some (self.stringArgument name) := by
  cases given : self.args with
  | none => simp [stringArgumentFrom?, stringArgument, parts, given]
  | some args =>
    obtain ⟨arguments, found, divided, values⟩ := exists_arguments (Glyph.ofCode args)
    simp only [stringArgumentFrom?, stringArgument, parts, given, found, ← divided,
      findM?_nameOf? (· == some name), List.find?_map, Option.bind_eq_bind, Option.bind_some]
    rw [show (fun part => argumentName part == some name) ∘ Prod.snd =
      fun argument : Argument => argumentName argument.2 == some name from rfl]
    -- The argument that is found is one of those whose values are read without fail.
    cases sought : arguments.find? fun argument => argumentName argument.2 == some name with
    | none => rfl
    | some argument =>
      simp only [values argument (List.mem_of_find?_eq_some sought)]
      rfl

/-- Whether an argument is set to `true` is read without fail. -/
theorem flagFrom?_eq (name : List Char) : self.flagFrom? name = some (self.flag name) := by
  -- The arguments are found by their offsets, and the name of each is read without fail.
  cases given : self.args with
  | none => simp [flagFrom?, flag, parts, given]
  | some args =>
    obtain ⟨arguments, found, divided, -⟩ := exists_arguments (Glyph.ofCode args)
    simp only [flagFrom?, flag, parts, given, found, ← divided, nameOf?_eq, List.any_map,
      Option.bind_eq_bind, Option.bind_some, Option.map_some]
    exact List.anyM_pure

/-- The main value is made of the literals of the first argument that may have it. -/
theorem value_eq_bind : self.value =
    (self.parts.find? fun part => isMain (argumentName part)).bind fun part =>
      match Literal.values part with
      | [] => none
      | literals => some literals.flatten :=
  -- This is how the value is defined.
  rfl

/-- The main value of an annotation is read without fail. -/
theorem valueFrom?_eq : self.valueFrom? = some self.value := by
  cases given : self.args with
  | none => simp [valueFrom?, value, parts, given]
  | some args =>
    obtain ⟨arguments, found, divided, values⟩ := exists_arguments (Glyph.ofCode args)
    simp only [value_eq_bind, valueFrom?, parts, given, found, ← divided, findM?_nameOf? isMain,
      List.find?_map, Option.bind_eq_bind, Option.bind_some]
    rw [show (fun part => isMain (argumentName part)) ∘ Prod.snd =
      fun argument : Argument => isMain (argumentName argument.2) from rfl]
    -- The same argument is found on both sides, as it is sought by its name alone.
    cases sought : arguments.find? fun argument => isMain (argumentName argument.2) with
    | none => rfl
    | some argument =>
      simp only [values argument (List.mem_of_find?_eq_some sought), Option.map_some,
        Option.bind_some]
      cases Literal.values argument.2 <;> rfl

end AnnotationUse

end IndexAudit
