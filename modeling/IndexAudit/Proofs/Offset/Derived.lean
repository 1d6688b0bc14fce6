import IndexAudit.Proofs.Offset.Search
import IndexAudit.Proofs.Text.Search
import IndexAudit.Query.Derived

/-!
Method names taken apart at byte offsets.

A predicate is cut at every single byte of it in search of connectors, which works on ASCII texts and
on no others.
-/

namespace IndexAudit

/-- A text of ASCII characters only. -/
def IsAscii (text : List Char) : Prop :=
  ∀ c ∈ text, c.toNat < 0x80

/-- Which texts are ASCII is decided by their characters. -/
instance (text : List Char) : Decidable (IsAscii text) :=
  inferInstanceAs (Decidable (∀ c ∈ text, c.toNat < 0x80))

/-- A text is in ASCII if each of its characters has a low number. -/
theorem all_iff_isAscii {text : List Char} : text.all (·.val < 0x80) = true ↔ IsAscii text := by
  rw [List.all_eq_true]
  exact forall₂_congr fun c _ => decide_eq_true_iff.trans UInt32.lt_iff_toNat_lt

/-- Texts in ASCII behind each other make up one. -/
theorem isAscii_append {front back : List Char} :
    IsAscii (front ++ back) ↔ IsAscii front ∧ IsAscii back :=
  List.forall_mem_append

/-- A text in ASCII takes up as many bytes as it has characters. -/
theorem IsAscii.width {text : List Char} (ascii : IsAscii text) : width text = text.length := by
  induction text with
  | nil => rfl
  | cons c text ih =>
    -- The first character takes one byte, and the others as many as there are of them.
    obtain ⟨here, later⟩ := List.forall_mem_cons.mp ascii
    have one : Sized.size c = 1 := utf8Size_ascii here
    rw [width_cons, one, ih later, List.length_cons, Nat.add_comm]

/-- A text in ASCII is its own bytes. -/
theorem IsAscii.byteChars {text : List Char} (ascii : IsAscii text) : byteChars text = text := by
  induction text with
  | nil => rfl
  | cons c text ih =>
    -- The first character is one byte, itself, and the others are theirs.
    obtain ⟨here, later⟩ := List.forall_mem_cons.mp ascii
    rw [byteChars_cons, byteChars_ascii here, ih later]
    rfl

/-- A character outside of ASCII takes up several bytes. -/
theorem size_wide {c : Char} (wide : 0x80 ≤ c.toNat) : 1 < Sized.size c := by
  have positive := Sized.positive c
  -- One byte is taken up by the characters up to 127 alone.
  have several : Sized.size c ≠ 1 := fun one =>
    absurd (UInt32.le_iff_toNat_le.mp (Char.utf8Size_eq_one_iff.mp one))
      (Nat.not_le.mpr (show 127 < c.toNat by omega))
  omega

/-- A text is cut nowhere inside of a character. -/
theorem from?_inside (front : List Char) {c : Char} (wide : 0x80 ≤ c.toNat) (rest : List Char) :
    from? (width front + 1) (front ++ c :: rest) = none := by
  induction front with
  | nil =>
    simp [from?, cut?, Nat.not_le.mpr (size_wide wide)]
  | cons d front ih =>
    have positive := Sized.positive d
    -- The offset lies further on by the first character, and so does the one that is cut.
    rw [from?, width_cons, List.cons_append, cut?, if_neg (by omega), if_pos (by omega),
      show Sized.size d + width front + 1 - Sized.size d = width front + 1 by omega]
    rw [from?] at ih
    simpa using ih

namespace DerivedQuery

/-- The length of the connector that a text begins with, or zero. -/
def connectorLength (text : List Char) : Nat :=
  if ['A', 'n', 'd'].isPrefixOf text then 3 else if ['O', 'r'].isPrefixOf text then 2 else 0

/--
The parts of a predicate from an offset on, the current one of which begins at another offset.

It fails if the fuel does not suffice or if the predicate is cut inside a character.
-/
def partsFrom? (text : List Char) : Nat → Nat → Nat → Option (List (List Char))
  | 0, _, _ => none
  | fuel + 1, start, offset =>
    if offset < width text then do
      -- The loop goes from byte to byte, so the offset may lie inside a character.
      let behind ← from? offset text
      let next := offset + connectorLength behind
      if offset < next ∧ (byteChars text)[next]?.any Char.isUpper then
        let part ← slice? start offset text
        let later ← partsFrom? text fuel next next
        some (part :: later)
      else partsFrom? text fuel start (offset + 1)
    else do
      let part ← from? start text
      some [part]

/-- The parts of a predicate between its connectors, empty ones left out. -/
def splitPredicateFrom? (text : List Char) : Option (List (List Char)) :=
  (partsFrom? text (width text + 1) 0 0).map fun parts => parts.filter (!·.isEmpty)

/-- A text without the first of several endings that is a proper one, cut off at its offset. -/
def dropEndingFrom? (endings : List String) (text : List Char) : Option (List Char) :=
  match endings.find? fun ending =>
    width ending.toList < width text && ending.toList.isSuffixOf text with
  | some ending => before? (width text - width ending.toList) text
  | none => some text

/-- A part of a predicate without its condition; one that names a property stays whole. -/
def stripConditionFrom? (isProperty : String → Bool) (part : List Char) : Option (List Char) :=
  if isProperty (String.ofList (decapitalizeChars part)) then some part
  else dropEndingFrom? conditions part

/-- The field that results are ordered by, without the direction. -/
def orderFieldFrom? (order : List Char) : Option (List (List Char)) :=
  (dropEndingFrom? directions order).map fun field => if field.isEmpty then [] else [field]

/-- The predicate and the order behind a subject, cut at the word between them. -/
def splitOrder? (rest : List Char) : Option (List Char × List (List Char)) :=
  match textIndex? orderBy (byteChars rest) with
  | some place => do
    let predicate ← before? place rest
    let order ← from? (place + width orderBy) rest
    let field ← orderFieldFrom? order
    some (predicate, field)
  | none => some (rest, [])

/--
The derived query that a method name stands for; a name without a subject stands for none.

It fails if a part of the name is cut inside a character.
-/
def ofMethodNameFrom? (isProperty : String → Bool) (method : List Char) : Option (Option DerivedQuery) :=
  match QuerySubject.read? method with
  | none => some none
  | some (intent, rest) => do
    let (predicate, order) ← splitOrder? rest
    let tokens ← splitPredicateFrom? predicate
    let named ← tokens.mapM (stripConditionFrom? isProperty)
    some (some ⟨intent, (named ++ order).map fun part => String.ofList (decapitalizeChars part)⟩)

/-- A connector is told by its length and the capital behind it. -/
theorem afterConnector?_eq (text : List Char) :
    afterConnector? text =
      if connectorLength text ≠ 0 ∧ startsCapital (text.drop (connectorLength text)) then
        some (text.drop (connectorLength text))
      else none := by
  unfold afterConnector?
  split
  · simp [connectorLength, List.isPrefixOf]
  · simp [connectorLength, List.isPrefixOf]
  -- Where neither word begins, the length is none, and nothing is a connector.
  · next noAnd noOr =>
    have none : connectorLength text = 0 := by
      rw [connectorLength, if_neg, if_neg]
      · intro isPrefix
        obtain ⟨rest, whole⟩ := List.isPrefixOf_iff_prefix.mp isPrefix
        exact noOr rest whole.symm
      · intro isPrefix
        obtain ⟨rest, whole⟩ := List.isPrefixOf_iff_prefix.mp isPrefix
        exact noAnd rest whole.symm
    rw [none, if_neg (by simp)]

/-- A connector ends a part, and any other character belongs to the current one. -/
theorem parts_eq (text : List Char) :
    parts text = match afterConnector? text with
      | some rest => [] :: parts rest
      | none => match text with
        | [] => [[]]
        | c :: rest => Cut.extendFirst c (parts rest) := by
  -- What leads a part is told by the connector, and after that by the first character.
  rw [parts.eq_def]
  split
  · simp_all
  · cases text <;> simp_all

/-- A connector is in ASCII, and takes up its length. -/
theorem take_connectorLength (text : List Char) :
    IsAscii (text.take (connectorLength text)) ∧
      (text.take (connectorLength text)).length = connectorLength text := by
  rw [connectorLength]
  split
  case isTrue isPrefix =>
    have same : ['A', 'n', 'd'] = text.take 3 :=
      List.prefix_iff_eq_take.mp (List.isPrefixOf_iff_prefix.mp isPrefix)
    rw [← same]
    decide
  case isFalse =>
    split
    case isTrue isPrefix =>
      have same : ['O', 'r'] = text.take 2 :=
        List.prefix_iff_eq_take.mp (List.isPrefixOf_iff_prefix.mp isPrefix)
      -- Either connector is plain ASCII, so its length in bytes is that in characters.
      rw [← same]
      decide
    case isFalse => simp [IsAscii]

/-- A connector takes up as many bytes as it is long. -/
theorem width_connector (front text : List Char) :
    width front + connectorLength text = width (front ++ text.take (connectorLength text)) := by
  -- A connector is in ASCII.
  obtain ⟨ascii, length⟩ := take_connectorLength text
  rw [width_append, ascii.width, length]

/-- The parts of a predicate in ASCII are found at their offsets. -/
theorem partsFrom?_width {text : List Char} (ascii : IsAscii text)
    (front current rest : List Char) (whole : text = front ++ current ++ rest) (fuel : Nat)
    (enough : width rest < fuel) :
    ∃ first others, parts rest = first :: others ∧
      partsFrom? text fuel (width front) (width (front ++ current)) =
        some ((current ++ first) :: others) := by
  induction length : rest.length using Nat.strong_induction_on
    generalizing front current rest fuel with
  | _ count ih =>
    obtain ⟨fuel, rfl⟩ := Nat.exists_eq_add_one_of_ne_zero (Nat.ne_zero_of_lt enough)
    have asciiRest : IsAscii rest := (isAscii_append.mp (whole ▸ ascii)).2
    have end_ : width text = width (front ++ current) + width rest := by rw [whole, width_append _ rest]
    match rest with
    | [] =>
      refine ⟨[], [], by rw [parts_eq]; rfl, ?_⟩
      have last : from? (width front) text = some current := by
        rw [whole, List.append_nil, from?_width]
      rw [partsFrom?, if_neg (by rw [end_]; simp), last, List.append_nil]
      rfl
    | c :: rest =>
      have positive := Sized.positive c
      have behind : from? (width (front ++ current)) text = some (c :: rest) := by
        rw [whole, from?_width]
      have capital : (byteChars text)[width (front ++ current) + connectorLength (c :: rest)]?.any
          Char.isUpper = startsCapital ((c :: rest).drop (connectorLength (c :: rest))) := by
        have place : width (front ++ current) = (front ++ current).length :=
          (isAscii_append.mp (whole ▸ ascii)).1.width
        rw [ascii.byteChars, whole, place, List.getElem?_append_right (Nat.le_add_right _ _),
          Nat.add_sub_cancel_left, startsCapital, List.head?_drop]
      have within : width (front ++ current) < width text := by
        rw [end_, width_cons]
        omega
      rw [parts_eq, afterConnector?_eq, partsFrom?, if_pos within]
      simp only [behind, capital, Option.bind_eq_bind, Option.bind_some, Nat.lt_add_right_iff_pos,
        Nat.pos_iff_ne_zero]
      by_cases connector : connectorLength (c :: rest) ≠ 0 ∧
          startsCapital ((c :: rest).drop (connectorLength (c :: rest)))
      · rw [if_pos connector, if_pos connector]
        have split := List.take_append_drop (connectorLength (c :: rest)) (c :: rest)
        have next := width_connector (front ++ current) (c :: rest)
        have sizes := congrArg width split
        have word := width_connector [] (c :: rest)
        rw [width_nil, Nat.zero_add, List.nil_append] at word
        rw [width_append, ← word] at sizes
        have filled := connector.1
        generalize connectorLength (c :: rest) = size at filled split next sizes ⊢
        have part : slice? (width front) (width (front ++ current)) text = some current := by
          rw [whole, width_append front]
          exact slice?_width _ _ _
        -- Behind the connector nothing of the next part has been passed.
        obtain ⟨first, others, same, found⟩ := ih ((c :: rest).drop size).length
          (by rw [List.length_drop, ← length, List.length_cons]; omega)
          (front ++ current ++ (c :: rest).take size) [] ((c :: rest).drop size)
          (by rw [List.append_nil, List.append_assoc, split, whole]) fuel (by omega) rfl
        rw [List.append_nil] at found
        simp only [part, next, found, Option.bind_some, same]
        exact ⟨[], _, rfl, by simp⟩
      · obtain ⟨first, others, same, found⟩ := ih rest.length (by simp [← length]) front
          (current ++ [c]) rest (by simpa using whole) fuel
          (by rw [width_cons] at enough; omega) rfl
        have one : Sized.size c = 1 := utf8Size_ascii (asciiRest c List.mem_cons_self)
        have next : width (front ++ current) + 1 = width (front ++ (current ++ [c])) := by
          rw [← List.append_assoc, width_append _ [c], width_cons, one, width_nil]
        rw [if_neg connector, if_neg connector, next, found, same]
        exact ⟨c :: first, others, rfl, by simp⟩

/-- A predicate with a character outside of ASCII is cut inside of it. -/
theorem partsFrom?_wide {text : List Char} (front rest : List Char) (whole : text = front ++ rest)
    (wide : ¬ IsAscii rest) (fuel start : Nat) : partsFrom? text fuel start (width front) = none := by
  induction fuel generalizing front rest start with
  | zero => rfl
  | succ fuel ih =>
    match rest with
    | [] => exact absurd (by simp [IsAscii]) wide
    | c :: rest =>
      have positive := Sized.positive c
      have within : width front < width text := by
        rw [whole, width_append, width_cons]
        omega
      have behind : from? (width front) text = some (c :: rest) := by rw [whole, from?_width]
      rw [partsFrom?, if_pos within]
      simp only [behind, Option.bind_eq_bind, Option.bind_some]
      split
      case isTrue =>
        -- A connector takes nothing of what is outside of ASCII.
        have split := List.take_append_drop (connectorLength (c :: rest)) (c :: rest)
        have ascii := (take_connectorLength (c :: rest)).1
        have next := width_connector front (c :: rest)
        have later := ih (front ++ (c :: rest).take (connectorLength (c :: rest)))
          ((c :: rest).drop (connectorLength (c :: rest)))
          (by rw [List.append_assoc, split, whole])
          (fun asciiRest => wide (split ▸ isAscii_append.mpr ⟨ascii, asciiRest⟩))
        simp only [next, later, Option.bind_none, Option.bind_fun_none]
      case isFalse =>
        by_cases ascii : c.toNat < 0x80
        · have one : Sized.size c = 1 := utf8Size_ascii ascii
          have next : width front + 1 = width (front ++ [c]) := by
            rw [width_append, width_cons, one, width_nil]
          rw [next]
          exact ih (front ++ [c]) rest (by simpa using whole) (fun asciiRest =>
            wide (List.forall_mem_cons.mpr ⟨ascii, asciiRest⟩)) start
        · have inside : from? (width front + 1) text = none := by
            rw [whole, from?_inside front (Nat.not_lt.mp ascii)]
          match fuel with
          | 0 => rfl
          | fuel + 1 =>
            have more : width front + 1 < width text := by
              have several := size_wide (Nat.not_lt.mp ascii)
              rw [whole, width_append, width_cons]
              omega
            rw [partsFrom?, if_pos more, inside]
            rfl

/-- A predicate is split without fail if it is in ASCII, and fails if it is not. -/
theorem splitPredicateFrom?_eq (text : List Char) :
    splitPredicateFrom? text = (splitPredicate text).toOption := by
  rw [splitPredicateFrom?, splitPredicate]
  by_cases ascii : IsAscii text
  · obtain ⟨first, others, same, found⟩ := partsFrom?_width ascii [] [] text rfl _
      (Nat.lt_succ_self _)
    rw [if_pos (all_iff_isAscii.mpr ascii), same]
    exact congrArg (Option.map _) found
  -- The error that the model gives is where the loop by offsets comes to a stop.
  · rw [if_neg (mt all_iff_isAscii.mp ascii)]
    exact congrArg (Option.map _) (partsFrom?_wide [] text rfl ascii (width text + 1) 0)

/-- A predicate cannot be split byte by byte exactly if it is not in ASCII. -/
theorem splitPredicateFrom?_eq_none_iff {text : List Char} :
    splitPredicateFrom? text = none ↔ ¬ IsAscii text := by
  -- Splitting fails on a text outside of ASCII, and on no other.
  rw [splitPredicateFrom?_eq, splitPredicate, ← all_iff_isAscii]
  split <;> simp_all [Except.toOption]

/-- A proper ending is cut off at its offset without fail. -/
theorem dropEndingFrom?_eq (endings : List String) (text : List Char) :
    dropEndingFrom? endings text = some (dropEnding endings text) := by
  have same : (fun ending : String => width ending.toList < width text && ending.toList.isSuffixOf text) =
      fun ending => ending.length < text.length && ending.toList.isSuffixOf text := by
    funext ending
    cases isSuffix : ending.toList.isSuffixOf text with
    | false => simp
    -- An ending is shorter in bytes exactly if it is in characters: something is in front of it.
    | true =>
      obtain ⟨front, whole⟩ := List.isSuffixOf_iff_suffix.mp isSuffix
      have none : width front = 0 ↔ front.length = 0 :=
        ⟨fun none => by have within := length_le_width front; omega,
          fun none => by rw [List.eq_nil_of_length_eq_zero none]; rfl⟩
      have sizes := congrArg width whole
      have lengths := congrArg List.length whole
      rw [width_append] at sizes
      rw [List.length_append, String.length_toList] at lengths
      simp only [Bool.and_true, decide_eq_decide]
      omega
  rw [dropEndingFrom?, dropEnding, same]
  cases found : endings.find? fun ending =>
      ending.length < text.length && ending.toList.isSuffixOf text with
  | none => rfl
  | some ending =>
    have both := List.find?_some found
    rw [Bool.and_eq_true] at both
    obtain ⟨front, whole⟩ := List.isSuffixOf_iff_suffix.mp both.2
    have left : text.take (text.length - ending.length) = front := by
      rw [← whole, ← String.length_toList, List.length_append, Nat.add_sub_cancel, List.take_left]
    have size : width text - width ending.toList = width front := by
      rw [← whole, width_append, Nat.add_sub_cancel]
    simp only [size, left]
    rw [← whole, before?_width]

/-- A part of a predicate loses its condition without fail. -/
theorem stripConditionFrom?_eq (isProperty : String → Bool) (part : List Char) :
    stripConditionFrom? isProperty part = some (stripCondition isProperty part) := by
  -- An ending is dropped without fail, so both take the same branch.
  rw [stripConditionFrom?, stripCondition, dropEndingFrom?_eq]
  split <;> rfl

/-- A text is split at the first place of a word. -/
theorem splitAtText?_eq {pattern : List Char} (filled : pattern ≠ []) (text : List Char) :
    splitAtText? pattern text = (textIndex? pattern text).map fun index =>
      (text.take index, text.drop (index + pattern.length)) := by
  -- Both look at one place after the other, and count the places they pass.
  induction text with
  | nil => simp [splitAtText?, textIndex?, filled]
  | cons c rest ih =>
    rw [splitAtText?, textIndex?]
    cases found : afterStart? pattern (c :: rest) with
    | none =>
      have missing : ¬ pattern.isPrefixOf (c :: rest) = true := by
        rw [List.isPrefixOf_iff_prefix, ← afterStart?_isSome_iff, found]
        simp
      rw [if_neg missing, ih]
      simp [Function.comp_def, Nat.add_right_comm]
    | some after =>
      have whole := afterStart?_eq_some_iff.mp found
      have isPrefix : pattern.isPrefixOf (c :: rest) = true :=
        List.isPrefixOf_iff_prefix.mpr ⟨after, whole⟩
      rw [if_pos isPrefix, ← whole]
      simp

/-- The predicate and the order of a name in ASCII are told apart without fail. -/
theorem splitOrder?_eq {rest : List Char} (ascii : IsAscii rest) :
    splitOrder? rest = some (match splitAtText? orderBy rest with
      | some (predicate, order) => (predicate, orderField order)
      | none => (rest, [])) := by
  rw [splitOrder?, ascii.byteChars, splitAtText?_eq (by decide)]
  cases found : textIndex? orderBy rest with
  | none => rfl
  | some index =>
    obtain ⟨after, stands⟩ := isPrefix_of_textIndex? found
    have whole : rest = rest.take index ++ orderBy ++ after := by
      rw [List.append_assoc, stands, List.take_append_drop]
    have length : (rest.take index).length = index := by
      have filled := congrArg List.length stands
      rw [List.length_append, List.length_drop] at filled
      rw [List.length_take, Nat.min_eq_left]
      have some : 0 < orderBy.length := by decide
      omega
    have asciiFront : IsAscii (rest.take index) := fun c listed => ascii c (List.mem_of_mem_take listed)
    -- In ASCII each character is one byte, so the index is an offset.
    have place : index = width (rest.take index) := by rw [asciiFront.width, length]
    have predicate : before? index rest = some (rest.take index) := by
      have cut := before?_width (rest.take index) (rest.drop index)
      rwa [← place, List.take_append_drop] at cut
    have order : from? (index + width orderBy) rest = some (rest.drop (index + orderBy.length)) := by
      have behind : rest.drop (index + orderBy.length) = after := by
        rw [← List.drop_drop, ← stands, List.drop_left]
      have cut := from?_width (rest.take index ++ orderBy) after
      rwa [← whole, width_append, ← place, ← behind] at cut
    simp only [predicate, order, orderFieldFrom?, dropEndingFrom?_eq, Option.bind_eq_bind,
      Option.bind_some, Option.map_some, orderField]

/-- What follows the subject of a method name is its end. -/
theorem isSuffix_of_read? {method rest : List Char} {intent : QueryIntent}
    (found : QuerySubject.read? method = some (intent, rest)) : rest <:+ method := by
  have after : ∀ entry ∈ QuerySubject.matching method, entry.2 <:+ method := by
    intro entry listed
    obtain ⟨subject, -, matched⟩ := List.mem_filterMap.mp listed
    obtain ⟨left, behind, rfl⟩ := Option.map_eq_some_iff.mp matched
    obtain ⟨middle, head, by_⟩ := Option.bind_eq_some_iff.mp behind
    have first : middle <:+ method := ⟨_, afterStart?_eq_some_iff.mp head⟩
    have second : left <:+ (if subject.limited then middle.dropWhile Char.isDigit else middle) :=
      ⟨_, afterStart?_eq_some_iff.mp by_⟩
    refine second.trans (.trans ?_ first)
    split
    · exact List.dropWhile_suffix _
    · exact List.suffix_refl _
  -- The longest of the subjects is one of them, whichever it is.
  have kept : ∀ (entries : List (QuerySubject × List Char)) (best : QuerySubject × List Char),
      best.2 <:+ method → (∀ entry ∈ entries, entry.2 <:+ method) →
        (entries.foldl QuerySubject.longer best).2 <:+ method := by
    intro entries
    induction entries with
    | nil => exact fun best here _ => here
    | cons entry entries ih =>
      intro best here all
      obtain ⟨next, later⟩ := List.forall_mem_cons.mp all
      refine ih _ ?_ later
      rw [QuerySubject.longer]
      split
      · exact next
      · exact here
  rw [QuerySubject.read?] at found
  split at found
  case h_1 => cases found
  case h_2 first entries matched =>
    cases found
    rw [matched] at after
    obtain ⟨here, later⟩ := List.forall_mem_cons.mp after
    exact kept entries first here later

/-- A method name in ASCII is taken apart without fail. -/
theorem ofMethodNameFrom?_eq (isProperty : String → Bool) {method : List Char} (ascii : IsAscii method) :
    ∃ query, ofMethodName isProperty method = .ok query ∧
      ofMethodNameFrom? isProperty method = some query := by
  rw [ofMethodName, ofMethodNameFrom?]
  cases found : QuerySubject.read? method with
  | none => exact ⟨none, rfl, rfl⟩
  | some read =>
    obtain ⟨intent, rest⟩ := read
    have asciiRest : IsAscii rest := fun c listed => ascii c ((isSuffix_of_read? found).subset listed)
    -- Parts of a name in ASCII are in ASCII, which is all that taking them apart asks for.
    have asciiPredicate : ∀ predicate order, splitAtText? orderBy rest = some (predicate, order) →
        IsAscii predicate := by
      intro predicate order split
      rw [splitAtText?_eq (by decide)] at split
      obtain ⟨index, -, same⟩ := Option.map_eq_some_iff.mp split
      cases same
      exact fun c listed => asciiRest c (List.mem_of_mem_take listed)
    have tokens : ∀ predicate, IsAscii predicate → ∃ tokens, splitPredicate predicate = .ok tokens ∧
        splitPredicateFrom? predicate = some tokens := by
      intro predicate asciiPredicate
      rw [splitPredicateFrom?_eq, splitPredicate, if_pos (all_iff_isAscii.mpr asciiPredicate)]
      exact ⟨_, rfl, rfl⟩
    simp only [splitOrder?_eq asciiRest, Option.bind_eq_bind, Option.bind_some]
    cases split : splitAtText? orderBy rest with
    | none =>
      obtain ⟨tokens, ok, found⟩ := tokens rest asciiRest
      simp only [ok, found, Option.bind_some, mapM_total (stripConditionFrom?_eq isProperty)]
      exact ⟨_, rfl, rfl⟩
    | some parts =>
      obtain ⟨predicate, order⟩ := parts
      obtain ⟨tokens, ok, found⟩ := tokens predicate (asciiPredicate predicate order split)
      simp only [ok, found, Option.bind_some, mapM_total (stripConditionFrom?_eq isProperty)]
      exact ⟨_, rfl, rfl⟩

end DerivedQuery

end IndexAudit
