import IndexAudit.Proofs.Sql.Phrase

/-!
Token lists in which each bracket is closed.

Such a list can be put in brackets, and commas inside its own brackets divide nothing.
-/

namespace IndexAudit

namespace SqlToken

/-- A token list in which round brackets match. -/
inductive Balanced : List SqlToken → Prop
  | nil : Balanced []
  | level {token : SqlToken} {rest : List SqlToken} (plain : token.nest = .level)
      (later : Balanced rest) : Balanced (token :: rest)
  | group {inside rest : List SqlToken} (inner : Balanced inside) (later : Balanced rest) :
      Balanced (.punctuation '(' :: (inside ++ .punctuation ')' :: rest))

/-- A token list in which round brackets match, and in which no comma stands outside of them. -/
inductive IsPart : List SqlToken → Prop
  | nil : IsPart []
  | level {token : SqlToken} {rest : List SqlToken} (plain : token.nest = .level)
      (noComma : token ≠ .punctuation ',') (later : IsPart rest) : IsPart (token :: rest)
  | group {inside rest : List SqlToken} (inner : Balanced inside) (later : IsPart rest) :
      IsPart (.punctuation '(' :: (inside ++ .punctuation ')' :: rest))

/-- Balanced lists behind each other are balanced. -/
theorem Balanced.append {first second : List SqlToken} (left : Balanced first)
    (right : Balanced second) : Balanced (first ++ second) := by
  -- By induction on the first one, with the second in place of its end.
  induction left with
  | nil => exact right
  | level plain _ ih => exact .level plain ih
  | group inner _ _ ih =>
    rw [List.cons_append, List.append_assoc, List.cons_append]
    exact .group inner ih

/-- Without the commas outside, a part is balanced. -/
theorem IsPart.balanced {part : List SqlToken} (isPart : IsPart part) : Balanced part := by
  -- A part is built like a balanced list, with one more condition on each token.
  induction isPart with
  | nil => exact .nil
  | level plain _ _ ih => exact .level plain ih
  | group inner _ ih => exact .group inner ih

/-- Parts behind each other, without a comma between them, are one part. -/
theorem IsPart.append {first second : List SqlToken} (left : IsPart first)
    (right : IsPart second) : IsPart (first ++ second) := by
  -- By induction on the first one, with the second in place of its end.
  induction left with
  | nil => exact right
  | level plain noComma _ ih => exact .level plain noComma ih
  | group inner _ ih =>
    rw [List.cons_append, List.append_assoc, List.cons_append]
    exact .group inner ih

/-- A token list that closes all brackets that are open at its end, those in front of it included. -/
def Closes (tokens : List SqlToken) : Prop :=
  ∃ depth, tokens.foldl (fun depth token => token.nest.after depth) depth = 0

/-- What follows the first token of such a list closes all brackets too. -/
theorem Closes.tail {token : SqlToken} {tokens : List SqlToken} (closes : Closes (token :: tokens)) :
    Closes tokens := by
  -- From the depth behind the token on, all brackets are closed.
  obtain ⟨depth, closed⟩ := closes
  exact ⟨token.nest.after depth, closed⟩

/-- Behind a list in which brackets match, as many are open as in front of it. -/
theorem Balanced.foldl_after {tokens : List SqlToken} (balanced : Balanced tokens) (depth : Nat) :
    tokens.foldl (fun depth token => token.nest.after depth) depth = depth := by
  induction balanced generalizing depth with
  | nil => rfl
  | level plain _ ih => rw [List.foldl_cons, plain, Nest.after, ih]
  | group _ _ ihInner ihLater =>
    -- Inside of a group one more is open, and its bracket at the end closes it.
    have opens : nest (.punctuation '(') = .opens := rfl
    have closes : nest (.punctuation ')') = .closes := rfl
    rw [List.foldl_cons, List.foldl_append, List.foldl_cons, opens, ihInner, closes, Nest.after,
      Nest.after, Nat.add_sub_cancel, ihLater]

/-- A list in which brackets match leaves none open. -/
theorem Balanced.closes {tokens : List SqlToken} (balanced : Balanced tokens) : Closes tokens :=
  -- From no open bracket on, none is left open.
  ⟨0, balanced.foldl_after 0⟩

/-- A token that neither nests nor divides anything. -/
structure IsPlain (token : SqlToken) : Prop where
  level : token.nest = .level
  noComma : token ≠ .punctuation ','
  noEnd : token ≠ .punctuation ';'

/-- A name is plain. -/
theorem isPlain_of_ident {token : SqlToken} {text : String} (named : token.ident? = some text) :
    IsPlain token := by
  -- Words and quoted names are no brackets, commas or semicolons.
  cases token with
  | word text => exact ⟨rfl, by simp, by simp⟩
  | quoted text => exact ⟨rfl, by simp, by simp⟩
  | _ => simp [ident?] at named

/-- A dot is plain. -/
theorem isPlain_dot : IsPlain (.punctuation '.') :=
  ⟨rfl, by simp, by simp⟩

/-- Keywords are plain. -/
theorem isPlain_keyword {word : String} : Each IsPlain (keyword word) := by
  -- A keyword is a word, and words are no marks.
  refine .keyword fun token found => ?_
  cases token with
  | word text => exact ⟨rfl, by simp, by simp⟩
  | _ => simp [isKeyword] at found

/-- Plain tokens are a part. -/
theorem isPart_of_isPlain {part : List SqlToken} (plain : ∀ token ∈ part, IsPlain token) :
    IsPart part := by
  induction part with
  | nil => exact .nil
  | cons token rest ih =>
    -- A plain token is neither a bracket nor a comma.
    obtain ⟨here, later⟩ := List.forall_mem_cons.mp plain
    exact .level here.level here.noComma (ih later)

/-- The closing bracket of a balanced list is found behind it, whatever is open around. -/
theorem closeIndex_balanced {inside : List SqlToken} (inner : Balanced inside) (depth : Nat)
    (rest : List SqlToken) :
    Nest.closeIndex nest (depth + 1) (inside ++ rest) =
      (Nest.closeIndex nest (depth + 1) rest).map (· + inside.length) := by
  -- The nesting is the same behind each balanced piece, so only the position moves on.
  induction inner generalizing depth rest with
  | nil => simp
  | level plain _ ih =>
    simp [Nest.closeIndex, plain, ih, Function.comp_def, Nat.add_assoc]
  | @group inside later _ _ ihInner ihLater =>
    have opens : nest (.punctuation '(') = .opens := rfl
    have closes : nest (.punctuation ')') = .closes := rfl
    simp only [List.cons_append, List.append_assoc, Nest.closeIndex, opens, ihInner, closes,
      ihLater, Option.map_map, List.length_cons, List.length_append]
    congr 1
    funext position
    simp only [Function.comp_apply]
    omega

/-- The bracket that opens a token list is closed behind the balanced list in it. -/
theorem closeIndex_group {inside : List SqlToken} (inner : Balanced inside)
    (rest : List SqlToken) :
    closeIndex (.punctuation '(' :: (inside ++ .punctuation ')' :: rest)) =
      some (inside.length + 1) := by
  -- The bracket leads one level down, and the list inside comes back to it.
  have opens : nest (.punctuation '(') = .opens := rfl
  have closes : nest (.punctuation ')') = .closes := rfl
  simp [closeIndex, Nest.closeIndex, opens, closeIndex_balanced inner, closes]

/-- How a list is divided at commas does not depend on the token in front of it. -/
theorem split_previous (depth : Nat) (previous other : Option SqlToken) (tokens : List SqlToken) :
    Cut.split cutAtComma depth 0 previous tokens = Cut.split cutAtComma depth 0 other tokens := by
  -- Whether a token divides is told by the token alone.
  cases tokens <;> rfl

/-- A token that is no bracket and no dividing comma goes to the part behind it. -/
theorem split_level {token : SqlToken} {depth : Nat} (plain : token.nest = .level)
    (apart : token = .punctuation ',' → depth ≠ 0) (rest : List SqlToken) :
    Cut.split cutAtComma depth 0 none (token :: rest) =
      Cut.extendFirst token (Cut.split cutAtComma depth 0 none rest) := by
  -- Only a comma at the top level divides, and what else is level changes no depth.
  by_cases comma : token = .punctuation ','
  · simp [Cut.split, cutAtComma, comma, apart comma, split_previous depth _ none]
  · simp [Cut.split, cutAtComma, comma, plain, Nest.after, split_previous depth _ none]

/-- An opening bracket leads one level down. -/
theorem split_opens (depth : Nat) (rest : List SqlToken) :
    Cut.split cutAtComma depth 0 none (.punctuation '(' :: rest) =
      Cut.extendFirst (.punctuation '(') (Cut.split cutAtComma (depth + 1) 0 none rest) := by
  -- Tokens are cut without regard to the one in front, so the step is the definition's.
  rw [split_previous (depth + 1) none (some (.punctuation '('))]
  rfl

/-- A closing bracket leads one level up. -/
theorem split_closes (depth : Nat) (rest : List SqlToken) :
    Cut.split cutAtComma (depth + 1) 0 none (.punctuation ')' :: rest) =
      Cut.extendFirst (.punctuation ')') (Cut.split cutAtComma depth 0 none rest) := by
  -- Tokens are cut without regard to the one in front, so the step is the definition's.
  rw [split_previous depth none (some (.punctuation ')'))]
  rfl

/-- Nothing is divided inside brackets. -/
theorem split_balanced {inside : List SqlToken} (inner : Balanced inside) (depth : Nat)
    (rest : List SqlToken) :
    Cut.split cutAtComma (depth + 1) 0 none (inside ++ rest) =
      inside.foldr Cut.extendFirst (Cut.split cutAtComma (depth + 1) 0 none rest) := by
  -- A group leads one level further down and back, and other tokens stay at depth.
  induction inner generalizing depth rest with
  | nil => rfl
  | level plain _ ih =>
    rw [List.cons_append, split_level plain (fun _ => Nat.succ_ne_zero depth), ih]
    rfl
  | group _ _ ihInner ihLater =>
    rw [List.cons_append, List.append_assoc, List.cons_append, split_opens, ihInner,
      split_closes, ihLater]
    simp

/-- Nothing is divided in a part. -/
theorem split_part {part : List SqlToken} (isPart : IsPart part) (rest : List SqlToken) :
    splitCommas (part ++ rest) = part.foldr Cut.extendFirst (splitCommas rest) := by
  unfold splitCommas
  -- Its tokens outside of brackets are no commas, and what is inside of them is not divided.
  induction isPart generalizing rest with
  | nil => rfl
  | level plain noComma _ ih =>
    rw [List.cons_append, split_level plain (fun comma => absurd comma noComma), ih]
    rfl
  | group inner _ ih =>
    rw [List.cons_append, List.append_assoc, List.cons_append, split_opens, split_balanced inner,
      split_closes, ih]
    simp

/-- A single part is not divided. -/
theorem splitCommas_part {part : List SqlToken} (isPart : IsPart part) :
    splitCommas part = [part] := by
  -- Behind the part nothing follows, so it is the first and only one.
  have divided := split_part isPart []
  have empty : splitCommas [] = [[]] := rfl
  rwa [empty, Cut.foldr_extendFirst, List.append_nil] at divided

/-- A list is divided at the comma behind a part. -/
theorem splitCommas_comma {part : List SqlToken} (isPart : IsPart part) (rest : List SqlToken) :
    splitCommas (part ++ .punctuation ',' :: rest) = part :: splitCommas rest := by
  -- The comma ends the part, which gets all that stands in front of it.
  have comma : splitCommas (.punctuation ',' :: rest) = [] :: splitCommas rest := by
    simp only [splitCommas, Cut.split, cutAtComma, if_true, and_self]
    rw [split_previous 0 _ none]
  rw [split_part isPart, comma, Cut.foldr_extendFirst, List.append_nil]

/-- Items with commas between them are divided into the phrases of the items. -/
theorem splitCommas_listed {α : Type} {phrase : α → Language SqlToken} {items : List α}
    {tokens : List SqlToken} (written : tokens ∈ listed phrase items) (nonempty : items ≠ [])
    (parts : ∀ item ∈ items, ∀ part ∈ phrase item, IsPart part) :
    List.Forall₂ (fun item part => part ∈ phrase item) items (splitCommas tokens) := by
  -- One item is one part, and each further item is behind a comma.
  induction items generalizing tokens with
  | nil => exact absurd rfl nonempty
  | cons item rest ih =>
    cases rest with
    | nil =>
      rw [splitCommas_part (parts item (by simp) tokens written)]
      exact .cons written .nil
    | cons next rest =>
      obtain ⟨part, isItem, later, isLater, rfl⟩ := mem_listed_cons written
      rw [splitCommas_comma (parts item (by simp) part isItem)]
      exact .cons isItem (ih isLater (by simp) fun other member =>
        parts other (List.mem_cons_of_mem item member))

/-- Items are read from their parts if each one is read from its own part. -/
theorem filterMap_splitCommas {α β : Type} {phrase : α → Language SqlToken} {items : List α}
    {tokens : List SqlToken} (written : tokens ∈ listed phrase items) (nonempty : items ≠ [])
    (parts : ∀ item ∈ items, ∀ part ∈ phrase item, IsPart part)
    {read : List SqlToken → Option β} {meaning : α → Option β}
    (reads : ∀ item part, part ∈ phrase item → read part = meaning item) :
    (splitCommas tokens).filterMap read = items.filterMap meaning := by
  have divided := splitCommas_listed written nonempty parts
  generalize splitCommas tokens = pieces at divided ⊢
  clear written nonempty parts
  -- Each part is written for its item, and read as that.
  induction divided with
  | nil => rfl
  | cons isItem _ ih => rw [List.filterMap_cons, List.filterMap_cons, reads _ _ isItem, ih]

/-- What holds of each phrase of an item holds of each part. -/
theorem forall_mem_splitCommas {α : Type} {phrase : α → Language SqlToken} {items : List α}
    {tokens : List SqlToken} (written : tokens ∈ listed phrase items) (nonempty : items ≠ [])
    (parts : ∀ item ∈ items, ∀ part ∈ phrase item, IsPart part) {kind : List SqlToken → Prop}
    (each : ∀ item ∈ items, ∀ part ∈ phrase item, kind part) :
    ∀ part ∈ splitCommas tokens, kind part := by
  have divided := splitCommas_listed written nonempty parts
  generalize splitCommas tokens = pieces at divided ⊢
  clear written nonempty parts
  -- Each part is written for an item of the list.
  induction divided with
  | nil => simp
  | cons isItem _ ih =>
    obtain ⟨here, later⟩ := List.forall_mem_cons.mp each
    exact List.forall_mem_cons.mpr ⟨here _ isItem, ih later⟩

/-- Items with commas between them are balanced if each of them is. -/
theorem balanced_listed {α : Type} {phrase : α → Language SqlToken} {items : List α}
    {tokens : List SqlToken} (written : tokens ∈ listed phrase items)
    (parts : ∀ item ∈ items, ∀ part ∈ phrase item, Balanced part) : Balanced tokens := by
  induction items generalizing tokens with
  | nil =>
    obtain rfl : tokens = [] := written
    exact .nil
  | cons item rest ih =>
    -- A single item is balanced by itself, and between two stands a comma.
    cases rest with
    | nil => exact parts item (by simp) tokens written
    | cons next rest =>
      obtain ⟨part, isItem, later, isLater, rfl⟩ := mem_listed_cons written
      exact (parts item (by simp) part isItem).append (.level rfl (ih isLater
        fun other member => parts other (List.mem_cons_of_mem item member)))

end SqlToken

end IndexAudit
