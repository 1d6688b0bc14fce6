import IndexAudit.Proofs.Sql.Statement

/-!
The elements of a table are read back as its keys.

A constraint is told by its first word. A column is read only where no constraint is, and one
that is itself called like a constraint must be written in quotes.
-/

namespace IndexAudit

namespace IndexStatement

open SqlToken
open scoped Computability

/-- What the brackets around the items of an index hold. -/
theorem mem_itemList {items : List IndexItem} {tokens : List SqlToken}
    (written : tokens ∈ itemList items) :
    ∃ inside, tokens = .punctuation '(' :: (inside ++ [.punctuation ')']) ∧
      inside ∈ listed IndexItem.written items ∧ items ≠ [] := by
  -- An empty list cannot be written, and any other stands in brackets.
  cases items with
  | nil => exact absurd written (Set.notMem_empty tokens)
  | cons item items =>
    obtain ⟨_, ⟨_, rfl, inside, areItems, rfl⟩, _, rfl, rfl⟩ := written
    exact ⟨inside, by simp, areItems, by simp⟩

section ItemList

variable {items : List IndexItem} {inside : List SqlToken}

/-- The brackets of all items match. -/
theorem balanced_items (areItems : inside ∈ listed IndexItem.written items) : Balanced inside :=
  -- Each item is one part, so its brackets match.
  balanced_listed areItems fun _ _ _ written => (IndexItem.isPart_written written).balanced

/-- The items of an index are read as its columns, with expressions in their places. -/
theorem indexColumns_items (areItems : inside ∈ listed IndexItem.written items)
    (nonempty : items ≠ []) : indexColumns inside = items.map (·.column?) := by
  -- An item list is not filtered, as an expression is read as well, though as no column.
  have read : (splitCommas inside).filterMap (some ∘ itemColumn?) =
      items.filterMap (some ∘ (·.column?)) :=
    filterMap_splitCommas areItems nonempty (fun _ _ _ => IndexItem.isPart_written)
      fun item part written => congrArg some (IndexItem.itemColumn?_written written)
  rwa [List.filterMap_eq_map, List.filterMap_eq_map] at read

end ItemList

/-- The items of an index are read from their brackets. -/
theorem readBracketed?_itemList {items : List IndexItem} {tokens : List SqlToken}
    (written : tokens ∈ itemList items) (rest : List SqlToken) :
    ∃ inside, readBracketed? (tokens ++ rest) = some (inside, rest) ∧
      indexColumns inside = items.map (·.column?) := by
  -- The brackets are passed around the items, and the columns are those of the items.
  obtain ⟨inside, rfl, areItems, nonempty⟩ := mem_itemList written
  refine ⟨inside, ?_, indexColumns_items areItems nonempty⟩
  have read := readBracketed?_group (balanced_items areItems) rest
  simpa using read

/-- An item list is one part. -/
theorem isPart_itemList {items : List IndexItem} {tokens : List SqlToken}
    (written : tokens ∈ itemList items) : IsPart tokens := by
  -- The list is a group, and the items in it are balanced.
  obtain ⟨inside, rfl, areItems, -⟩ := mem_itemList written
  exact .group (balanced_items areItems) .nil

/-- A statement does not end in an item list. -/
theorem goesOn_itemList (items : List IndexItem) : Each GoesOn (itemList items) := by
  intro tokens written
  obtain ⟨inside, rfl, areItems, -⟩ := mem_itemList written
  -- No item ends a statement, and neither does a bracket.
  have within : ∀ token ∈ inside, GoesOn token :=
    Each.listed (by simp [GoesOn]) (fun item _ => IndexItem.goesOn_written item) inside areItems
  refine List.forall_mem_cons.mpr ⟨by simp [GoesOn], List.forall_mem_append.mpr ⟨within, ?_⟩⟩
  simp [GoesOn]

/-- A name is no keyword at the front of some tokens. -/
theorem startsWith_name {token : SqlToken} (free : token.isOneOf keywords = false)
    {word : String} (listed : word ∈ keywords) (rest : List SqlToken) :
    startsWith word (token :: rest) = false := by
  -- The name is none of the keywords, and the word is one of them.
  have apart := List.any_eq_false.mp free word listed
  simpa [startsWith] using apart

/-- An item list begins with a bracket. -/
theorem startsWith_itemList {items : List IndexItem} {tokens : List SqlToken}
    (written : tokens ∈ itemList items) (word : String) (rest : List SqlToken) :
    startsWith word (tokens ++ rest) = false := by
  -- A bracket is no word.
  obtain ⟨inside, rfl, -, -⟩ := mem_itemList written
  rfl

/-- A name, if there is one, is read in front of an item list. -/
theorem optionalName_itemList {given : Option String} {own list : List SqlToken}
    {items : List IndexItem} (isOwn : own ∈ optionalName given) (isList : list ∈ itemList items) :
    (if (own ++ list).head? ≠ some (.punctuation '(') then (own ++ list).head?.bind (·.ident?)
      else none) = given ∧
    (if (own ++ list).head? ≠ some (.punctuation '(') then (own ++ list).drop 1
      else own ++ list) = list := by
  obtain ⟨inside, rfl, -, -⟩ := mem_itemList isList
  cases given with
  | none =>
    obtain rfl : own = [] := isOwn
    simp
  | some text =>
    obtain ⟨token, named, -, rfl⟩ := mem_name isOwn
    -- A name is an identifier, which no bracket is.
    have noBracket : token ≠ .punctuation '(' := by
      rintro rfl
      contradiction
    simp [noBracket, named]

/-- A key is read behind its constraint, by the words for its kind. -/
theorem ofTableElement_kind {given own : Option String} {constrained words list : List SqlToken}
    {ownTokens : List SqlToken} {kind : KeyKind} {items : List IndexItem} (table : String)
    (isConstraint : constrained ∈ TableKey.constraint given)
    (unconstrained : startsWith "constraint" words = false)
    (read : readKind? words = some (kind, ownTokens ++ list)) (isOwn : ownTokens ∈ optionalName own)
    (isList : list ∈ itemList items) :
    ofTableElement table (constrained ++ words) =
      some ⟨(given.or own).getD (defaultName kind table (items.map (·.column?))), table,
        items.map (·.column?), kind != .index, false⟩ := by
  obtain ⟨inside, bracketed, columns⟩ := readBracketed?_itemList isList []
  rw [List.append_nil] at bracketed
  -- A name of its own may stand in front of the items, behind the words for the kind.
  obtain ⟨named, behind⟩ := optionalName_itemList isOwn isList
  cases given with
  | none =>
    obtain rfl : constrained = [] := isConstraint
    simp only [List.nil_append, ofTableElement, unconstrained, Bool.false_eq_true, if_false, read,
      Option.bind_eq_bind, Option.bind_some, named, behind, bracketed, columns, Option.none_or]
  -- The name of the constraint goes before the key's own.
  | some given =>
    obtain ⟨_, ⟨word, found, rfl⟩, _, isName, rfl⟩ := isConstraint
    obtain ⟨token, isNamed, rfl⟩ := mem_identifier.mp isName
    simp only [List.cons_append, List.nil_append, ofTableElement, startsWith_cons, found, if_true,
      List.drop, List.head?_cons, isNamed, read, Option.bind_eq_bind, Option.bind_some, behind,
      bracketed, columns, Option.some_or]

/-- What may stand between the words for a key and its items. -/
theorem startsWith_optionalName {given : Option String} {own list : List SqlToken}
    {items : List IndexItem} (isOwn : own ∈ optionalName given) (isList : list ∈ itemList items)
    {word : String} (listed : word ∈ keywords) : startsWith word (own ++ list) = false := by
  -- With a name, that comes first, and without one the bracket does.
  cases given with
  | none =>
    obtain rfl : own = [] := isOwn
    have bracket := startsWith_itemList isList word []
    rwa [List.append_nil] at bracket
  | some text =>
    obtain ⟨token, -, free, rfl⟩ := mem_name isOwn
    exact startsWith_name free listed list

/-- The words for a primary key are read as such. -/
theorem readKind?_primary {first second : SqlToken} (isPrimary : first.isKeyword "primary" = true)
    (isKey : second.isKeyword "key" = true) (rest : List SqlToken) :
    readKind? (first :: second :: rest) = some (.primary, rest) := by
  simp [readKind?, isPrimary, isKey]

/-- The words for a unique key are read as such. -/
theorem readKind?_unique {first : SqlToken} {words rest : List SqlToken}
    (isUnique : first.isKeyword "unique" = true)
    (areWords : words ∈ optional (keyword "key" + keyword "index"))
    (noKey : startsWith "key" rest = false) (noIndex : startsWith "index" rest = false) :
    readKind? (first :: (words ++ rest)) = some (.unique, rest) := by
  -- The word is no other keyword, and of the two that may follow it at most one is skipped.
  have notPrimary : first.isKeyword "primary" = false :=
    (isKeyword_other isUnique).trans (by decide)
  rcases mem_optional.mp areWords with (⟨token, isKey, rfl⟩ | ⟨token, isIndex, rfl⟩) | rfl
  · simp [readKind?, notPrimary, isUnique, isKey]
  · have notKey : token.isKeyword "key" = false := (isKeyword_other isIndex).trans (by decide)
    simp [readKind?, notPrimary, isUnique, notKey, skip, isIndex]
  · simp [readKind?, notPrimary, isUnique, noKey, skip, noIndex]

/-- An index with named items lists columns, and no sizes. -/
theorem listsColumns_namedItems {given : Option String} {own list : List SqlToken}
    {items : List IndexItem} (isOwn : own ∈ optionalName given)
    (isList : list ∈ namedItems items) : listsColumns (own ++ list) = true := by
  obtain ⟨areNamed, isItemList⟩ := isList
  obtain ⟨inside, rfl, areItems, nonempty⟩ := mem_itemList isItemList
  have read := readBracketed?_group (balanced_items areItems) []
  -- Each item begins with a name; a size would begin with a number.
  have each : ∀ part ∈ splitCommas inside, (part.head?.bind (·.ident?)).isSome = true :=
    forall_mem_splitCommas areItems nonempty (fun _ _ _ => IndexItem.isPart_written)
      fun item member part written => IndexItem.head?_written written (areNamed item member)
  cases given with
  | none =>
    obtain rfl : own = [] := isOwn
    have bracket : ident? (.punctuation '(') = none := rfl
    simpa [listsColumns, bracket, read] using each
  | some text =>
    obtain ⟨token, named, -, rfl⟩ := mem_name isOwn
    simpa [listsColumns, named, read] using each

/-- The words for an index are read as such if it lists columns. -/
theorem readKind?_index {words rest : List SqlToken}
    (areWords : words ∈ keyword "index" + keyword "key") (lists : listsColumns rest = true) :
    readKind? (words ++ rest) = some (.index, rest) := by
  -- Either word is no other keyword, and with columns listed it tells the kind.
  rcases areWords with ⟨token, isIndex, rfl⟩ | ⟨token, isKey, rfl⟩
  · have notPrimary : token.isKeyword "primary" = false :=
      (isKeyword_other isIndex).trans (by decide)
    have notUnique : token.isKeyword "unique" = false := (isKeyword_other isIndex).trans (by decide)
    simp [readKind?, notPrimary, notUnique, isIndex, lists]
  · have notPrimary : token.isKeyword "primary" = false := (isKeyword_other isKey).trans (by decide)
    have notUnique : token.isKeyword "unique" = false := (isKeyword_other isKey).trans (by decide)
    simp [readKind?, notPrimary, notUnique, isKey, lists]

namespace TableKey

/-- A key among the elements of a table is read as its index. -/
theorem ofTableElement_written {key : TableKey} {tokens : List SqlToken}
    (written : tokens ∈ key.written) (table : String) :
    ofTableElement table tokens = some (key.definition table) := by
  -- Each kind of key is told by its words, behind the constraint and in front of the items.
  cases key with
  | primary given items =>
    obtain ⟨_, ⟨constrained, isConstraint, _, ⟨_, ⟨first, isPrimary, rfl⟩, _, ⟨second, isKey, rfl⟩,
      rfl⟩, rfl⟩, list, isList, rfl⟩ := written
    have unconstrained : startsWith "constraint" (first :: second :: list) = false :=
      (isKeyword_other isPrimary).trans (by decide)
    have noOwn : [] ∈ optionalName none := rfl
    have kind : readKind? (first :: second :: list) = some (.primary, [] ++ list) :=
      readKind?_primary isPrimary isKey list
    have read := ofTableElement_kind table isConstraint unconstrained kind noOwn isList
    have noIndex : (KeyKind.primary != .index) = true := by decide
    simpa [definition, defaultName, noIndex] using read
  | unique given own items =>
    obtain ⟨_, ⟨_, ⟨constrained, isConstraint, _, ⟨_, ⟨first, isUnique, rfl⟩, words, areWords,
      rfl⟩, rfl⟩, ownTokens, isOwn, rfl⟩, list, isList, rfl⟩ := written
    have unconstrained : startsWith "constraint" (first :: (words ++ (ownTokens ++ list))) =
        false := (isKeyword_other isUnique).trans (by decide)
    have kind := readKind?_unique isUnique areWords
      (startsWith_optionalName isOwn isList (by decide))
      (startsWith_optionalName isOwn isList (by decide))
    have read := ofTableElement_kind table isConstraint unconstrained kind isOwn isList
    have noIndex : (KeyKind.unique != .index) = true := by decide
    simpa [definition, defaultName, noIndex] using read
  | index own items =>
    obtain ⟨_, ⟨words, areWords, ownTokens, isOwn, rfl⟩, list, isList, rfl⟩ := written
    have unconstrained : startsWith "constraint" (words ++ (ownTokens ++ list)) = false := by
      rcases areWords with ⟨token, found, rfl⟩ | ⟨token, found, rfl⟩
      · exact (isKeyword_other found).trans (by decide)
      · exact (isKeyword_other found).trans (by decide)
    have kind := readKind?_index areWords (listsColumns_namedItems isOwn isList)
    have noConstraint : [] ∈ constraint none := rfl
    have read := ofTableElement_kind table noConstraint unconstrained kind isOwn isList.2
    simpa [definition, defaultName] using read

/-- The tokens of a constraint's name are plain. -/
theorem isPlain_constraint (given : Option String) : Each IsPlain (constraint given) := by
  -- It is a keyword and a name, or nothing.
  cases given with
  | none => exact .one
  | some given => exact isPlain_keyword.mul (isPlain_identifier given)

/-- The tokens of a name that may be left out are plain. -/
theorem isPlain_optionalName (given : Option String) : Each IsPlain (optionalName given) := by
  -- It is a name, or nothing.
  cases given with
  | none => exact .one
  | some given => exact isPlain_name given

/-- A key is its items behind plain tokens. -/
theorem exists_plain {key : TableKey} {tokens : List SqlToken} (written : tokens ∈ key.written) :
    ∃ front list items, (∀ token ∈ front, IsPlain token) ∧ list ∈ itemList items ∧
      tokens = front ++ list := by
  have word : ∀ own, Each IsPlain (keyword own) := fun _ => isPlain_keyword
  -- In front of its list, a key is made of words and a name, none of which nests or separates.
  cases key with
  | primary given items =>
    obtain ⟨front, isFront, list, isList, rfl⟩ := written
    have plain := (isPlain_constraint given).mul ((word "primary").mul (word "key"))
    exact ⟨front, list, items, plain front isFront, isList, rfl⟩
  | unique given own items =>
    obtain ⟨front, isFront, list, isList, rfl⟩ := written
    have plain := ((isPlain_constraint given).mul ((word "unique").mul
      ((word "key").add (word "index")).optional)).mul (isPlain_optionalName own)
    exact ⟨front, list, items, plain front isFront, isList, rfl⟩
  | index own items =>
    obtain ⟨front, isFront, list, isList, rfl⟩ := written
    have plain := ((word "index").add (word "key")).mul (isPlain_optionalName own)
    exact ⟨front, list, items, plain front isFront, isList.2, rfl⟩

/-- A key is one part. -/
theorem isPart_written {key : TableKey} {tokens : List SqlToken} (written : tokens ∈ key.written) :
    IsPart tokens := by
  -- A key is plain up to its items, and these are one part.
  obtain ⟨front, list, items, plain, isList, rfl⟩ := exists_plain written
  exact (isPart_of_isPlain plain).append (isPart_itemList isList)

/-- A statement does not end in a key. -/
theorem goesOn_written (key : TableKey) : Each GoesOn key.written := by
  intro tokens written
  -- What stands in front of the items is plain.
  obtain ⟨front, list, items, plain, isList, rfl⟩ := exists_plain written
  exact List.forall_mem_append.mpr
    ⟨fun token member => (plain token member).noEnd, goesOn_itemList items list isList⟩

end TableKey

/-- Two words next to each other are found wherever they stand. -/
theorem hasPair_append {first second : String} {left right : SqlToken}
    (isFirst : left.isKeyword first = true) (isSecond : right.isKeyword second = true)
    (before behind : List SqlToken) :
    hasPair first second (before ++ left :: right :: behind) = true := by
  -- The pair stands at the front, or is found further on.
  induction before with
  | nil =>
    simp [hasPair, isFirst, isSecond]
  | cons token before ih => simp [hasPair, ih]

/-- Two words are not next to each other where the first one is nowhere. -/
theorem hasPair_of_lacks {first second : String} {tokens : List SqlToken}
    (lacks : ∀ token ∈ tokens, token.isKeyword first = false) :
    hasPair first second tokens = false := by
  induction tokens with
  | nil => rfl
  | cons token tokens ih =>
    -- The first token is not the first word, so no pair begins there.
    obtain ⟨here, later⟩ := List.forall_mem_cons.mp lacks
    simp [hasPair, here, ih later]

namespace TableElement

/-- The words that a column declares a key of itself by. -/
theorem notKeyword_of_attributes {tokens : List SqlToken} (written : tokens ∈ attributes) :
    ∀ token ∈ tokens, token.isKeyword "primary" = false ∧ token.isKeyword "unique" = false := by
  intro token member
  -- Attributes are written without either word.
  have lacks := (written.2 token member).2
  simpa [isOneOf] using lacks

/-- A column among the elements of a table is no key. -/
theorem ofTableElement_column {text : String} {first : SqlToken} (table : String)
    (isName : [first] ∈ name text) (rest : List SqlToken) :
    ofTableElement table (first :: rest) = none := by
  obtain ⟨token, -, free, same⟩ := mem_name isName
  obtain rfl : first = token := by simpa using same
  -- The element begins with a name, so neither its kind nor a constraint is read.
  have noWord : ∀ word ∈ keywords, startsWith word (first :: rest) = false :=
    fun word listed => startsWith_name free listed rest
  have noKind : readKind? (first :: rest) = none := by
    simp [readKind?, noWord "primary" (by decide), noWord "unique" (by decide),
      noWord "index" (by decide), noWord "key" (by decide)]
  simp [ofTableElement, noWord "constraint" (by decide), noKind]

/-- A column is told by its name, and its key by the words behind it. -/
theorem ofColumn_cons {token : SqlToken} {text : String} (table : String)
    (named : token.ident? = some text) (rest : List SqlToken) :
    ofColumn table (token :: rest) =
      if hasPair "primary" "key" (token :: rest) then
        some (.ofUniqueColumn (IndexDefinition.primaryKeyName table) table text)
      else if (token :: rest).any (·.isKeyword "unique") then
        some (.ofUniqueColumn (IndexDefinition.uniqueColumnName table text) table text)
      else none := by
  -- The first token names the column.
  rw [ofColumn, List.head?_cons]
  simp only [Option.bind_eq_bind, Option.bind_some, named]

/-- What a column declares of itself is read as its index. -/
theorem ofColumn_written {text : String} {rule : ColumnRule} {tokens : List SqlToken}
    (written : tokens ∈ (column text rule).written) (table : String) :
    ofColumn table tokens = (column text rule).definition? table := by
  obtain ⟨_, ⟨_, ⟨_, isName, front, areFront, rfl⟩, words, areWords, rfl⟩, behind, areBehind,
    rfl⟩ := written
  obtain ⟨token, named, free, rfl⟩ := mem_name isName
  have noName : token.isKeyword "primary" = false ∧ token.isKeyword "unique" = false := by
    have lacks := List.any_eq_false.mp free
    simpa using And.intro (lacks "primary" (by decide)) (lacks "unique" (by decide))
  have frontLacks := notKeyword_of_attributes areFront
  have behindLacks := notKeyword_of_attributes areBehind
  -- What the words in the middle say is found, as no word around them says the same.
  cases rule with
  | plain =>
    obtain rfl : words = [] := areWords
    have lacks : ∀ other ∈ token :: (front ++ behind),
        other.isKeyword "primary" = false ∧ other.isKeyword "unique" = false :=
      List.forall_mem_cons.mpr ⟨noName, List.forall_mem_append.mpr ⟨frontLacks, behindLacks⟩⟩
    have noPair : hasPair "primary" "key" (token :: (front ++ behind)) = false :=
      hasPair_of_lacks fun other member => (lacks other member).1
    have noUnique : (token :: (front ++ behind)).any (·.isKeyword "unique") = false := by
      refine List.any_eq_false.mpr fun other member => ?_
      rw [(lacks other member).2]
      simp
    simp only [List.append_nil, List.cons_append, List.nil_append]
    rw [ofColumn_cons table named, noPair, noUnique]
    rfl
  | primary =>
    obtain ⟨_, ⟨first, isPrimary, rfl⟩, _, ⟨second, isKey, rfl⟩, rfl⟩ := areWords
    have pair := hasPair_append isPrimary isKey (token :: front) behind
    simp only [List.append_assoc, List.cons_append, List.nil_append] at pair ⊢
    rw [ofColumn_cons table named, pair]
    rfl
  | unique =>
    obtain ⟨first, isUnique, rfl⟩ := areWords
    have notPrimary : first.isKeyword "primary" = false := by
      rw [isKeyword_other isUnique]
      decide
    have noPair : hasPair "primary" "key" (token :: (front ++ first :: behind)) = false := by
      refine hasPair_of_lacks (List.forall_mem_cons.mpr ⟨noName.1, List.forall_mem_append.mpr
        ⟨fun other member => (frontLacks other member).1, List.forall_mem_cons.mpr
          ⟨notPrimary, fun other member => (behindLacks other member).1⟩⟩⟩)
    have found : (token :: (front ++ first :: behind)).any (·.isKeyword "unique") = true :=
      List.any_eq_true.mpr ⟨first, by simp, isUnique⟩
    simp only [List.append_assoc, List.cons_append, List.nil_append]
    rw [ofColumn_cons table named, noPair, found]
    rfl

/-- An element of a table is read as its index, if it has one. -/
theorem read_written {element : TableElement} {tokens : List SqlToken}
    (written : tokens ∈ element.written) (table : String) :
    (ofTableElement table tokens).or (ofColumn table tokens) = element.definition? table := by
  -- A key is read as such, and a column only if no key is read first.
  cases element with
  | key declared =>
    rw [TableKey.ofTableElement_written written table]
    rfl
  | column text rule =>
    rw [ofColumn_written written table]
    obtain ⟨_, ⟨_, ⟨_, isName, front, -, rfl⟩, words, -, rfl⟩, behind, -, rfl⟩ := written
    obtain ⟨token, -, -, rfl⟩ := mem_name isName
    simp only [List.append_assoc, List.cons_append, List.nil_append]
    rw [ofTableElement_column table isName, Option.none_or]

/-- What a column declares of itself is plain. -/
theorem isPlain_rule (rule : ColumnRule) : Each IsPlain rule.written := by
  -- A rule is one or two keywords, or nothing at all.
  cases rule with
  | plain => exact .one
  | primary => exact isPlain_keyword.mul isPlain_keyword
  | unique => exact isPlain_keyword

/-- An element of a table is one part. -/
theorem isPart_written {element : TableElement} {tokens : List SqlToken}
    (written : tokens ∈ element.written) : IsPart tokens := by
  -- A column is a name, its rule, and attributes without a comma around it.
  cases element with
  | key declared => exact TableKey.isPart_written written
  | column text rule =>
    obtain ⟨_, ⟨_, ⟨first, isName, front, areFront, rfl⟩, words, areWords, rfl⟩, behind, areBehind,
      rfl⟩ := written
    have named := isPart_of_isPlain (isPlain_name text first isName)
    have ruled := isPart_of_isPlain (isPlain_rule rule words areWords)
    exact ((named.append areFront.1).append ruled).append areBehind.1

/-- A statement does not end in an element of a table. -/
theorem goesOn_written (element : TableElement) : Each GoesOn element.written := by
  -- Neither names, rules nor attributes hold a semicolon.
  have attributed : Each GoesOn attributes := fun tokens written token member =>
    (written.2 token member).1
  cases element with
  | key declared => exact TableKey.goesOn_written declared
  | column text rule =>
    exact (((goesOn_of_isPlain (isPlain_name text)).mul attributed).mul
      (goesOn_of_isPlain (isPlain_rule rule))).mul attributed

end TableElement

end IndexStatement

end IndexAudit
