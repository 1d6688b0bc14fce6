import IndexAudit.Proofs.Code.Enclosure
import IndexAudit.Proofs.Entity.Header

/-!
Where the class of an entity ends.

A class with a block of its own ends with that, and nothing behind it bears on the mapping. A class
without one takes the first block behind it for its own, unless another class is declared in front
of that block.
-/

namespace IndexAudit

open AnnotationUse (skipSpacing Begins)

namespace Entity

/-! The heading of a class. -/

/-- What the search for the parameters of a constructor meets first. -/
inductive HeadingStep where
  /-- Type parameters that are left open. -/
  | unclosed
  /-- Type parameters, an annotation or a word to pass over, and what follows it. -/
  | passes (after : List Glyph)
  /-- Anything else, or nothing. -/
  | stops (left : List Glyph)

/-- The first step of the search for the parameters of a constructor. -/
def headingStep (code : List Glyph) : HeadingStep :=
  match skipSpacing code with
  | [] => .stops []
  | glyph :: rest =>
    -- Type parameters, annotations and words are passed over; anything else ends the heading.
    if glyph.shown = '<' then
      match rest.dropWhile (·.shown != '>') with
      | [] => .unclosed
      | _ :: after => .passes after
    else if glyph.shown = '@' then
      match AnnotationUse.read? (glyph :: rest) with
      | none => .stops (glyph :: rest)
      | some (_, after) => .passes after
    else
      match firstWord (Glyph.shownText (glyph :: rest)) with
      | [] => .stops (glyph :: rest)
      | c :: word =>
        if constructorWords.contains (String.ofList (c :: word)) then
          .passes (rest.drop word.length)
        else .stops (glyph :: rest)

/-- The parameters that code begins with, and what follows them. -/
def parametersHere? : List Glyph → Option (List Glyph × List Glyph)
  | [] => none
  | glyph :: rest =>
    if glyph.shown = '(' then
      (Glyph.closeIndex (glyph :: rest)).map fun close => (rest.take (close - 1), rest.drop close)
    else none

/-- The search for the parameters of a constructor goes on behind what it passes over. -/
theorem constructorParameters?_step (code : List Glyph) :
    constructorParameters? code =
      match headingStep code with
      | .unclosed => none
      | .passes after => constructorParameters? after
      | .stops left => parametersHere? left := by
  -- The cases are those of the recursion: nothing, a type, an annotation, a word, or a stop.
  rw [constructorParameters?.eq_def, headingStep]
  split
  · rename_i nothing
    simp [nothing, parametersHere?]
  rename_i glyph rest start
  simp only [start]
  by_cases angle : glyph.shown = '<'
  · simp only [angle, if_true]
    split <;> rename_i close <;> simp [close]
  by_cases bracket : glyph.shown = '('
  · have word : firstWord ('(' :: Glyph.shownText rest) = [] :=
      List.takeWhile_cons_of_neg (by decide)
    simp [bracket, word, parametersHere?]
  by_cases note : glyph.shown = '@'
  · simp only [note, if_true]
    cases read : AnnotationUse.read? (glyph :: rest) with
    | none => simp [parametersHere?, note]
    | some found => simp
  · simp only [angle, bracket, note, if_false]
    cases named : firstWord (Glyph.shownText (glyph :: rest)) with
    | nil => simp [parametersHere?, bracket]
    | cons c word =>
      by_cases known : constructorWords.contains (String.ofList (c :: word)) = true
      · simp only [known, if_true]
      · simp only [known, if_false, Bool.false_eq_true, parametersHere?, bracket]

/-- A heading in which the type parameters are closed. -/
inductive HeadingCloses : List Glyph → Prop
  | stops {code left : List Glyph} (here : headingStep code = .stops left) : HeadingCloses code
  | passes {code after : List Glyph} (here : headingStep code = .passes after)
      (later : HeadingCloses after) : HeadingCloses code

/-- What follows a part of a heading is the end of the code, and so is what follows all of it. -/
theorem headingStep_isSuffix {code rest : List Glyph}
    (here : headingStep code = .passes rest ∨ headingStep code = .stops rest) : rest <:+ code := by
  -- Every branch leaves off the space in front, and maybe something behind that.
  have spaced : skipSpacing code <:+ code := List.dropWhile_suffix _
  rw [headingStep] at here
  split at here
  · rcases here with here | here <;> cases here
    exact List.nil_suffix
  rename_i glyph behindIt start
  rw [start] at spaced
  have behind : behindIt <:+ code := (List.suffix_cons glyph behindIt).trans spaced
  split at here
  · split at here
    · rcases here with here | here <;> cases here
    · rename_i close
      rcases here with here | here <;> cases here
      exact ((List.suffix_cons _ _).trans (close ▸ List.dropWhile_suffix _)).trans behind
  split at here
  · split at here
    · rcases here with here | here <;> cases here
      exact spaced
    · rename_i read
      rcases here with here | here <;> cases here
      exact (AnnotationUse.read?_isSuffix read).trans spaced
  · split at here
    · rcases here with here | here <;> cases here
      exact spaced
    · split at here
      · rcases here with here | here <;> cases here
        exact (List.drop_suffix _ behindIt).trans behind
      · rcases here with here | here <;> cases here
        exact spaced

/-- Code that begins with no parameters and no arguments, as a declaration does. -/
structure BeginsAnew (code : List Glyph) : Prop where
  parameters : constructorParameters? code = none
  arguments : Begins code

/-- White space in front of the parameters does not count. -/
theorem constructorParameters?_congr {code other : List Glyph}
    (same : skipSpacing code = skipSpacing other) :
    constructorParameters? code = constructorParameters? other := by
  -- Both are told by the next step behind the white space, and by no character of that.
  rw [constructorParameters?_step, constructorParameters?_step other, headingStep, headingStep,
    same]

section Behind

variable {code back : List Glyph}

/-- Parameters are read as they stand in code that closes its parentheses. -/
theorem parametersHere?_append (closes : Glyph.ClosesRound code) (filled : code ≠ [])
    (back : List Glyph) :
    parametersHere? (code ++ back) =
      (parametersHere? code).map fun found => (found.1, found.2 ++ back) := by
  cases code with
  | nil => exact absurd rfl filled
  | cons glyph rest =>
    by_cases opens : glyph.shown = '('
    -- The bracket is closed inside of the code, so none behind it is looked at.
    · obtain ⟨close, closed⟩ := Option.isSome_iff_exists.mp
        (closes (glyph :: rest) (List.suffix_refl _) (by simp [opens]))
      have whole : Glyph.closeIndex (glyph :: (rest ++ back)) = some close :=
        Nest.closeIndex_append closed back
      have within : close ≤ rest.length := Nat.le_of_lt_succ (Nest.closeIndex_lt closed)
      simp only [List.cons_append, parametersHere?, opens, if_true, closed, whole, Option.map_some]
      rw [List.take_append_of_le_length (by omega), List.drop_append_of_le_length within]
    · simp [parametersHere?, opens]

/-- A heading is passed over as it stands, up to where it ends. -/
theorem headingStep_append (closes : Glyph.ClosesRound code) (behind : Glyph.IsBehind back)
    (anew : Begins back) (visible : skipSpacing code ≠ []) :
    (∀ after, headingStep code = .passes after →
      headingStep (code ++ back) = .passes (after ++ back)) ∧
    ∀ left, headingStep code = .stops left →
      left ≠ [] ∧ headingStep (code ++ back) = .stops (left ++ back) := by
  have spaced := AnnotationUse.skipSpacing_append visible back
  cases start : skipSpacing code with
  | nil => exact absurd start visible
  | cons glyph rest =>
    have ends : glyph :: rest <:+ code := start ▸ List.dropWhile_suffix _
    rw [start] at spaced
    have word : firstWord (Glyph.shownText (glyph :: (rest ++ back))) =
        firstWord (Glyph.shownText (glyph :: rest)) := by
      rw [firstWord, Glyph.shownText, ← List.cons_append, List.map_append]
      exact takeWhile_append_stop (behind.stopsText (by decide))
    have note := AnnotationUse.read?_behind (closes.suffix ends) behind (fun _ _ _ _ _ => anew)
    rw [List.cons_append] at note spaced
    have stays : ∀ left, HeadingStep.stops (glyph :: rest) = .stops left →
        left ≠ [] ∧ HeadingStep.stops (glyph :: (rest ++ back)) = .stops (left ++ back) := by
      intro left same
      obtain rfl := HeadingStep.stops.inj same
      exact ⟨List.cons_ne_nil glyph rest, rfl⟩
    unfold headingStep
    simp only [start, spaced, word, note]
    by_cases angle : glyph.shown = '<'
    · simp only [angle, if_true]
      cases close : rest.dropWhile (·.shown != '>') with
      | nil => exact ⟨fun after same => by simp at same, fun left same => by simp at same⟩
      | cons last after =>
        -- The closing angle stands where it stands.
        have whole : (rest ++ back).dropWhile (·.shown != '>') = last :: (after ++ back) := by
          rw [List.dropWhile_append, if_neg (by simp [close]), close, List.cons_append]
        rw [whole]
        refine ⟨fun behindIt same => ?_, fun left same => by simp at same⟩
        rw [← HeadingStep.passes.inj same]
    by_cases marked : glyph.shown = '@'
    · simp only [marked, if_true]
      cases AnnotationUse.read? (glyph :: rest) with
      | none => exact ⟨fun after same => by simp at same, stays⟩
      | some found =>
        refine ⟨fun after same => ?_, fun left same => by simp at same⟩
        rw [← HeadingStep.passes.inj same]
        rfl
    · simp only [angle, marked, if_false]
      cases named : firstWord (Glyph.shownText (glyph :: rest)) with
      | nil => exact ⟨fun after same => by simp at same, stays⟩
      | cons c word =>
        have within : (c :: word).length ≤ (glyph :: rest).length := by
          rw [← named]
          simpa [firstWord, Glyph.shownText] using
            List.Sublist.length_le (List.takeWhile_sublist isIdentifierChar
              (l := Glyph.shownText (glyph :: rest)))
        by_cases known : constructorWords.contains (String.ofList (c :: word)) = true
        · simp only [known, if_true]
          refine ⟨fun after same => ?_, fun left same => by simp at same⟩
          rw [← HeadingStep.passes.inj same,
            List.drop_append_of_le_length (Nat.le_of_succ_le_succ within)]
        · simp only [known, if_false, Bool.false_eq_true]
          exact ⟨fun after same => by simp at same, stays⟩

/-- The parameters of a constructor are found as they stand. -/
theorem constructorParameters?_append (heading : HeadingCloses code)
    (closes : Glyph.ClosesRound code) (behind : Glyph.IsBehind back) (anew : BeginsAnew back) :
    constructorParameters? (code ++ back) =
      (constructorParameters? code).map fun found => (found.1, found.2 ++ back) := by
  induction heading with
  | @stops code left here =>
    by_cases visible : skipSpacing code = []
    · -- The search goes on behind the heading, where there are no parameters.
      have alone : constructorParameters? code = constructorParameters? [] :=
        constructorParameters?_congr (by rw [visible]; rfl)
      have none : constructorParameters? [] = none := by
        rw [constructorParameters?_step]
        rfl
      rw [constructorParameters?_congr (AnnotationUse.skipSpacing_append_blank visible back),
        anew.parameters, alone, none]
      rfl
    · have ends := headingStep_isSuffix (.inr here)
      obtain ⟨filled, stops⟩ :=
        (headingStep_append closes behind anew.arguments visible).2 left here
      rw [constructorParameters?_step, stops, constructorParameters?_step code, here]
      exact parametersHere?_append (closes.suffix ends) filled back
  | @passes code after here _ ih =>
    have visible : skipSpacing code ≠ [] := by
      intro nothing
      simp [headingStep, nothing] at here
    have further := (headingStep_append closes behind anew.arguments visible).1 after here
    rw [constructorParameters?_step, further, constructorParameters?_step code, here]
    exact ih (closes.suffix (headingStep_isSuffix (.inl here)))

end Behind

/-! The block of a class. -/

/-- The first block of code is found in front of what stands behind it, if there is one. -/
theorem bodyIndex?_append (depth : Nat) (front back : List Glyph) :
    bodyIndex? depth (front ++ back) = (bodyIndex? depth front).or
      ((bodyIndex? (Segment.depthBehind depth front) back).map (· + front.length)) := by
  induction front generalizing depth with
  | nil => simp [bodyIndex?]
  | cons glyph rest ih =>
    rw [List.cons_append, bodyIndex?, bodyIndex?]
    -- Found in front, it is found; else the depth goes on into what is behind.
    split
    · rfl
    · rw [ih]
      cases bodyIndex? (Segment.depthAfter depth glyph.shown) rest with
      | none => simp [Function.comp_def, Nat.add_assoc]
      | some index => rfl

/-- Line breaks in front of code are in front of its first block. -/
theorem bodyIndex?_lineBreaks (gap : Nat) (code : List Glyph) :
    bodyIndex? 0 (List.replicate gap (Glyph.plain '\n') ++ code) =
      (bodyIndex? 0 code).map (· + gap) := by
  induction gap with
  | zero => simp
  | succ gap ih =>
    -- A line break is no bracket, so the first block is one further on.
    rw [List.replicate_succ, List.cons_append, bodyIndex?, if_neg (by decide),
      show Segment.depthAfter 0 (Glyph.plain '\n').shown = 0 from rfl, ih, Option.map_map]
    rfl

/-- The first block of code begins with its bracket. -/
theorem drop_of_bodyIndex? {depth index : Nat} {code : List Glyph}
    (found : bodyIndex? depth code = some index) :
    ∃ rest, ∃ glyph : Glyph, code.drop index = glyph :: rest ∧ glyph.shown = '{' := by
  induction code generalizing depth index with
  | nil => cases found
  | cons first code ih =>
    rw [bodyIndex?] at found
    -- The walk stops at the bracket itself, or finds it in the rest.
    split at found
    · rename_i opens
      obtain rfl := Option.some.inj found
      exact ⟨code, first, rfl, opens.2⟩
    · obtain ⟨inner, later, rfl⟩ := Option.map_eq_some_iff.mp found
      exact ih later

/-- The keyword of a class. -/
def classKeywords : List (List Char) :=
  ["class".toList]

/-- The keyword of a class is a word. -/
theorem isName_of_mem_classKeywords : ∀ keyword ∈ classKeywords, IsName keyword := by
  intro keyword member
  -- There is one such keyword.
  rw [List.mem_singleton.mp member]
  exact ⟨by decide, by decide⟩

/-- A class with a block of its own has that for its body, whatever stands behind. -/
theorem classBody?_append {code : List Glyph} (closes : Glyph.ClosesBrackets code)
    (own : bodyIndex? 0 code ≠ none) (back : List Glyph) :
    classBody? (code ++ back) = classBody? code := by
  obtain ⟨index, found⟩ := Option.ne_none_iff_exists'.mp own
  have whole : bodyIndex? 0 (code ++ back) = some index := by
    rw [bodyIndex?_append, found]
    rfl
  obtain ⟨rest, glyph, opening, opens⟩ := drop_of_bodyIndex? found
  have within : index < code.length := by
    by_contra beyond
    rw [List.drop_eq_nil_of_le (Nat.le_of_not_lt beyond)] at opening
    cases opening
  -- The block is closed in the code, so what stands behind does not matter.
  obtain ⟨close, closed⟩ := Option.isSome_iff_exists.mp
    (closes (code.drop index) (List.drop_suffix index code)
      (by simp [opening, opens, Glyph.bracketOf]))
  have closedBehind : Glyph.closeIndex ((code ++ back).drop index) = some close := by
    rw [List.drop_append_of_le_length (Nat.le_of_lt within)]
    exact Nest.closeIndex_append closed back
  have inside : close - 1 ≤ (code.drop (index + 1)).length := by
    have position := Nest.closeIndex_lt closed
    simp only [List.length_drop] at position ⊢
    omega
  simp only [classBody?, found, whole, closed, closedBehind, Option.bind_eq_bind, Option.bind_some]
  rw [List.take_append_of_le_length (Nat.le_of_lt within),
    List.drop_append_of_le_length within, List.take_append_of_le_length inside]

/-- A class without a block has none behind it either, if it declares another class. -/
theorem classBody?_declared {code back : List Glyph} (bodyless : bodyIndex? 0 code = none)
    (declares : Declaration.find classKeywords none code ≠ none)
    (behind : Glyph.IsBehind back) : classBody? (code ++ back) = none := by
  obtain ⟨declared, found⟩ := Option.ne_none_iff_exists'.mp declares
  rw [classBody?, bodyIndex?_append, bodyless, Option.none_or]
  -- A block behind is not reached: the other class is declared in front of it.
  cases bodyIndex? (Segment.depthBehind 0 code) back with
  | none => rfl
  | some index =>
    have position : index + code.length = code.length + index := Nat.add_comm _ _
    have start : Glyph.IsBehind (back.take index) := by
      intro glyph first
      refine behind glyph ?_
      cases index with
      | zero => simp at first
      | succ index => simpa [List.head?_take] using first
    have declared := Declaration.find_append_some isName_of_mem_classKeywords start found
    have declared : (Declaration.find ["class".toList] none
        (code ++ back.take index)).isSome = true := by
      rw [show ["class".toList] = classKeywords from rfl, declared]
      rfl
    simp only [Option.map_some, Option.bind_eq_bind, Option.bind_some, position,
      List.take_length_add_append, declared, if_true]

/-- A class without a block takes the one of the code behind it. -/
theorem classBody?_behind {code back : List Glyph} {gap : Nat}
    (bodyless : bodyIndex? 0 code = none) (level : Segment.depthBehind 0 code = 0)
    (nothing : Declaration.find classKeywords none code = none)
    (complete : Declaration.awaitsName classKeywords none code = false)
    (apart : gap = 0 → back = []) :
    classBody? (code ++ (List.replicate gap (Glyph.plain '\n') ++ back)) = classBody? back := by
  rw [classBody?, bodyIndex?_append, bodyless, Option.none_or, level, bodyIndex?_lineBreaks,
    Option.map_map, classBody?]
  cases bodyIndex? 0 back with
  | none => rfl
  | some index =>
    have position : index + gap + code.length =
        code.length + ((List.replicate gap (Glyph.plain '\n')).length + index) := by
      simp only [List.length_replicate]
      omega
    -- The search for another class goes through nothing but the code in front of the block.
    have apart : gap = 0 → back.take index = [] := fun alone => by simp [apart alone]
    have same := Declaration.find_lineBreaks isName_of_mem_classKeywords apart nothing complete
    have same : (Declaration.find ["class".toList] none
        (code ++ (List.replicate gap (Glyph.plain '\n') ++ back.take index))).isSome =
        (Declaration.find ["class".toList] none (back.take index)).isSome := by
      rw [show ["class".toList] = classKeywords from rfl, same, Option.isSome_map]
    have further : code.length + ((List.replicate gap (Glyph.plain '\n')).length + index) + 1 =
        code.length + ((List.replicate gap (Glyph.plain '\n')).length + (index + 1)) := by
      omega
    simp only [Option.map_some, Function.comp_apply, Option.bind_eq_bind, Option.bind_some,
      position, further, List.take_length_add_append, List.drop_length_add_append, same]

/-! The class of an entity. -/

/-- The class of an entity, the table that it names, and the code behind its name. -/
structure EntityClass where
  name : List Char
  table : List Char
  behind : List Glyph
deriving Repr, DecidableEq

/-- The first entity class that code declares, if it names a table. -/
def class? (code : List Glyph) : Option EntityClass := do
  let (_, behind) ← AnnotationUse.findMarker "Entity".toList code
  let marked := code.take (code.length - behind.length)
  let previous := marked.getLast?.map (·.shown)
  let declaration ← Declaration.find classKeywords previous behind
  let table ← tableName? (marked ++ declaration.before) code
  some ⟨declaration.name, table, declaration.after⟩

namespace EntityClass

/-- The fields that the constructor of a class declares. -/
def parameterFields (self : EntityClass) : List (String × String) :=
  match constructorParameters? self.behind with
  | some (inside, _) =>
    (Glyph.splitTop ',' true inside).foldl (fun fields part => addMember [] part fields) []
  | none => []

/-- The code behind the parameters of a class, or behind its name if it has none. -/
def tail (self : EntityClass) : List Glyph :=
  match constructorParameters? self.behind with
  | some (_, after) => after
  | none => self.behind

/-- The mapping of a class with a given body, or without one. -/
def mapping (self : EntityClass) (body : Option (List Glyph)) : TableMapping :=
  .ofDeclared (String.ofList self.name) (String.ofList self.table) <|
    match body with
    | some body =>
      addMembers [] self.parameterFields (Segment.collect (fun _ => false) 1 0 [] body)
    | none => self.parameterFields

end EntityClass

/-- The mapping of code is that of its class, with the body that is found behind it. -/
theorem mapping?_eq (code : List Glyph) :
    mapping? code = (class? code).map fun found => found.mapping (classBody? found.tail) := by
  simp only [mapping?, class?, classKeywords, Option.bind_eq_bind]
  -- Both fail at the same steps, and the body comes only behind all of them.
  cases AnnotationUse.findMarker "Entity".toList code with
  | none => rfl
  | some marker =>
    simp only [Option.bind_some]
    generalize Declaration.find ["class".toList] _ marker.2 = declaration
    cases declaration with
    | none => rfl
    | some declaration =>
      simp only [Option.bind_some]
      generalize tableName? _ code = table
      cases table with
      | none => rfl
      | some table => rfl

/-- A table is named by arguments. -/
theorem args_of_declaredName? {note : AnnotationUse} {name : List Char}
    (named : declaredName? note = some name) : note.args ≠ none := by
  -- Without arguments there is no string to name the table.
  intro bare
  simp [declaredName?, AnnotationUse.stringArgument, AnnotationUse.parts, bare] at named

/-- The table of a class is named in front of it, whatever stands behind. -/
theorem tableName?_append {before code : List Glyph} {table : List Char}
    (named : tableName? before code = some table) (closes : Glyph.ClosesRound code)
    {back : List Glyph} (behind : Glyph.IsBehind back) :
    tableName? before (code ++ back) = some table := by
  simp only [tableName?, Option.bind_eq_bind, Option.bind_eq_some_iff] at named ⊢
  obtain ⟨index, found, ⟨note, after⟩, read, named⟩ := named
  have within : index ≤ code.length := by
    by_contra beyond
    rw [List.drop_eq_nil_of_le (Nat.le_of_not_le beyond)] at read
    cases read
  refine ⟨index, found, (note, after ++ back), ?_, named⟩
  rw [List.drop_append_of_le_length within,
    AnnotationUse.read?_behind (closes.suffix (List.drop_suffix index code)) behind, read]
  · rfl
  · -- An annotation that names a table has arguments.
    intro first rest isFirst bare
    rw [isFirst] at read
    obtain ⟨rfl, -⟩ := Prod.mk.inj (Option.some.inj read)
    exact absurd bare (args_of_declaredName? named)

/-- The first class of an entity is found as it stands, whatever stands behind. -/
theorem class?_append {code : List Glyph} {found : EntityClass} (isClass : class? code = some found)
    (closes : Glyph.ClosesRound code) {back : List Glyph} (behind : Glyph.IsBehind back) :
    class? (code ++ back) = some { found with behind := found.behind ++ back } := by
  simp only [class?, Option.bind_eq_bind, Option.bind_eq_some_iff] at isClass ⊢
  obtain ⟨⟨before, after⟩, marker, declaration, declared, table, named, isClass⟩ := isClass
  obtain rfl := Option.some.inj isClass
  -- The place of the marker is counted from the end, which moved by as much as was added.
  have marked : (code ++ back).take ((code ++ back).length - (after ++ back).length) =
      code.take (code.length - after.length) := by
    rw [List.length_append, List.length_append, Nat.add_sub_add_right]
    exact List.take_append_of_le_length (Nat.sub_le _ _)
  have parts : ∀ c ∈ "Entity".toList, isWordChar c = true := by decide
  refine ⟨_, AnnotationUse.findMarker_append_some behind parts marker, ?_⟩
  simp only [marked]
  exact ⟨_, Declaration.find_append_some isName_of_mem_classKeywords behind declared, table,
    tableName?_append named closes behind, rfl⟩

/-- What stands behind the name of a class is the end of the code. -/
theorem class?_isSuffix {code : List Glyph} {found : EntityClass}
    (isClass : class? code = some found) : found.behind <:+ code := by
  -- The marker and the declaration behind it are each found in what follows the other.
  simp only [class?, Option.bind_eq_bind, Option.bind_eq_some_iff] at isClass
  obtain ⟨⟨before, after⟩, marker, declaration, declared, table, named, isClass⟩ := isClass
  obtain rfl := Option.some.inj isClass
  exact (Declaration.find_isSuffix declared).trans (AnnotationUse.findMarker_isSuffix marker)

/-- What stands behind the parameters of a constructor is the end of the code. -/
theorem constructorParameters?_isSuffix {code inside after : List Glyph}
    (heading : HeadingCloses code) (found : constructorParameters? code = some (inside, after)) :
    after <:+ code := by
  -- Along the parts of the heading: what follows each is an end of what it began.
  induction heading with
  | @stops code left here =>
    rw [constructorParameters?_step, here] at found
    have ends := headingStep_isSuffix (.inr here)
    cases left with
    | nil => cases found
    | cons glyph rest =>
      simp only [parametersHere?] at found
      split at found
      · obtain ⟨close, -, same⟩ := Option.map_eq_some_iff.mp found
        obtain ⟨-, rfl⟩ := Prod.mk.inj same
        exact ((List.drop_suffix close rest).trans (List.suffix_cons glyph rest)).trans ends
      · cases found
  | @passes code after here _ ih =>
    rw [constructorParameters?_step, here] at found
    exact (ih found).trans (headingStep_isSuffix (.inl here))

namespace EntityClass

variable {self : EntityClass}

/-- The code behind the parameters of a class is the end of the code behind its name. -/
theorem tail_isSuffix (heading : HeadingCloses self.behind) : self.tail <:+ self.behind := by
  rw [tail]
  -- Without parameters it is all of the code.
  cases found : constructorParameters? self.behind with
  | none => exact List.suffix_refl _
  | some parameters => exact constructorParameters?_isSuffix heading found

/-- What stands behind a class does not change its parameters. -/
theorem append (heading : HeadingCloses self.behind) (closes : Glyph.ClosesRound self.behind)
    {back : List Glyph} (behind : Glyph.IsBehind back) (anew : BeginsAnew back) :
    let followed : EntityClass := { self with behind := self.behind ++ back }
    followed.parameterFields = self.parameterFields ∧ followed.tail = self.tail ++ back := by
  have parameters := constructorParameters?_append heading closes behind anew
  simp only [parameterFields, tail, parameters]
  -- Parameters end before what stands behind, so only the tail grows by it.
  cases constructorParameters? self.behind with
  | none => exact ⟨rfl, rfl⟩
  | some found => exact ⟨rfl, rfl⟩

end EntityClass

/-- Declarations on lines of their own begin anew, too. -/
theorem BeginsAnew.lineBreaks {code : List Glyph} (anew : BeginsAnew code) (gap : Nat) :
    BeginsAnew (List.replicate gap (Glyph.plain '\n') ++ code) := by
  have blank : ∀ glyph ∈ List.replicate gap (Glyph.plain '\n'), isSpacing glyph.shown = true := by
    intro glyph member
    rw [(List.mem_replicate.mp member).2]
    decide
  -- Line breaks are spacing, which both readers pass over first.
  have same : skipSpacing (List.replicate gap (Glyph.plain '\n') ++ code) = skipSpacing code :=
    List.dropWhile_append_of_pos blank
  constructor
  · rw [constructorParameters?_congr same, anew.parameters]
  · rw [Begins, same]
    exact anew.arguments

/--
What stands behind the class of an entity bears on its mapping only if the class has no block.

The text ends with the class, whose brackets it closes, and further declarations follow on new
lines. If the class has a block of its own, or another class is declared behind it already, the
mapping is that of the text alone. Else the first block in what follows is taken for the body of the
class, if no other class is declared in front of that.
-/
theorem mappingOfText?_followed {text : List Char} (closed : IsClosed text)
    (balanced : Glyph.Balanced false true (codeGlyphs text)) {found : EntityClass}
    (isClass : class? (codeGlyphs text) = some found) (heading : HeadingCloses found.behind)
    {more : List Char} (anew : BeginsAnew (codeGlyphs more)) :
    (bodyIndex? 0 found.tail ≠ none ∨ Declaration.find classKeywords none found.tail ≠ none →
      mappingOfText? (text ++ '\n' :: more) = mappingOfText? text) ∧
    (bodyIndex? 0 found.tail = none → Declaration.find classKeywords none found.tail = none →
      Declaration.awaitsName classKeywords none found.tail = false →
      mappingOfText? text = some (found.mapping none) ∧
        mappingOfText? (text ++ '\n' :: more) =
          some (found.mapping (classBody? (codeGlyphs more)))) := by
  obtain ⟨gap, whole, apart, -⟩ := closed.codeGlyphs_append more
  have behind := Glyph.isBehind_lineBreaks apart
  have anew := anew.lineBreaks gap
  have closes := balanced.closesBrackets
  have ends := class?_isSuffix isClass
  have tailEnds := EntityClass.tail_isSuffix heading
  have closesBehind := closes.suffix ends
  obtain ⟨fields, tail⟩ := EntityClass.append heading closesBehind.closesRound behind anew
  have alone : mappingOfText? text = some (found.mapping (classBody? found.tail)) := by
    rw [mappingOfText?, ← codeGlyphs, mapping?_eq, isClass]
    rfl
  have followed : mappingOfText? (text ++ '\n' :: more) = some (found.mapping (classBody?
      (found.tail ++ (List.replicate gap (Glyph.plain '\n') ++ codeGlyphs more)))) := by
    rw [mappingOfText?, ← codeGlyphs, whole, mapping?_eq, class?_append isClass closes.closesRound behind,
      Option.map_some, tail]
    simp only [EntityClass.mapping, fields]
  -- Without a block there is no body.
  have noBody (code : List Glyph) (bodyless : bodyIndex? 0 code = none) :
      classBody? code = none := by
    rw [classBody?, bodyless]
    rfl
  constructor
  · intro ended
    -- Either the class has its own block, or the class behind it keeps it from others.
    rw [followed, alone]
    by_cases own : bodyIndex? 0 found.tail = none
    · rw [classBody?_declared own (ended.resolve_left (fun other => other own)) behind,
        noBody _ own]
    · rw [classBody?_append (closesBehind.suffix tailEnds) own]
  · intro bodyless nothing complete
    -- All brackets are closed behind the class, so the search goes on at the same nesting.
    have level : Segment.depthBehind 0 found.tail = 0 :=
      Nat.le_zero.mp (Segment.depthBehind_suffix balanced (tailEnds.trans ends) 0)
    rw [followed, alone, noBody _ bodyless,
      classBody?_behind bodyless level nothing complete apart]
    exact ⟨rfl, rfl⟩

/-- The text of an entity class, with given code behind its name. -/
def itemText (behind : String) : List Char :=
  "@Entity @Table(name = \"items\") class Item".toList ++ behind.toList

/-- An interface with a property, and a class behind it. -/
def sizedText : List Char :=
  ['\n'].intercalate (["interface Sized \x7b", "    val size: Int", "\x7d",
    "class Box(val width: Int)"].map String.toList)

/-- An entity without a block takes over the property of an interface, one with a block does not. -/
theorem mappingOfText?_followed_item :
    BeginsAnew (codeGlyphs sizedText) ∧
      mappingOfText? (itemText "(val code: Int)") =
        some (.ofDeclared "Item" "items" [("code", "code")]) ∧
      mappingOfText? (itemText "(val code: Int)" ++ '\n' :: sizedText) =
        some (.ofDeclared "Item" "items" [("code", "code"), ("size", "size")]) ∧
      mappingOfText? (itemText " \x7b val code: Int \x7d" ++ '\n' :: sizedText) =
        some (.ofDeclared "Item" "items" [("code", "code")]) := by
  have anew : BeginsAnew (codeGlyphs sizedText) := by
    refine ⟨by decide +kernel, ?_⟩
    intro glyph first
    obtain rfl : Glyph.plain 'i' = glyph := by
      have start : (skipSpacing (codeGlyphs sizedText)).head? = some (Glyph.plain 'i') := by
        decide +kernel
      exact Option.some.inj (start.symm.trans first)
    decide
  -- Both texts close their brackets, and so each may stand in front of the interface.
  have balanced (behind : String) (closes : Glyph.closesAll [] (codeGlyphs (itemText behind))) :
      Glyph.Balanced false true (codeGlyphs (itemText behind)) :=
    (Glyph.balanced_of_closesAll closes).1 rfl
  have short : class? (codeGlyphs (itemText "(val code: Int)")) =
      some ⟨"Item".toList, "items".toList, "(val code: Int)".toList.map Glyph.plain⟩ := by
    decide +kernel
  have long : class? (codeGlyphs (itemText " \x7b val code: Int \x7d")) =
      some ⟨"Item".toList, "items".toList, " \x7b val code: Int \x7d".toList.map Glyph.plain⟩ := by
    decide +kernel
  obtain ⟨alone, taken⟩ := (mappingOfText?_followed (by decide +kernel)
    (balanced "(val code: Int)" (by decide +kernel)) short (.stops rfl) anew).2
    (by decide +kernel) (by decide +kernel) (by decide +kernel)
  have kept := (mappingOfText?_followed (by decide +kernel)
    (balanced " \x7b val code: Int \x7d" (by decide +kernel)) long (.stops rfl) anew).1
    (.inl (by decide +kernel))
  refine ⟨anew, alone.trans (by decide +kernel), taken.trans (by decide +kernel), ?_⟩
  exact kept.trans (by decide +kernel)

end Entity

end IndexAudit
