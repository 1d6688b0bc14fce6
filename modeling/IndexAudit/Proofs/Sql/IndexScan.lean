import IndexAudit.Proofs.Sql.Reading

/-!
What stands behind the first words of a statement is read as the indexes that it defines.

No name is a keyword, so none is taken for a word that may be left out.
-/

namespace IndexAudit

namespace IndexStatement

open SqlToken
open scoped Computability

/-- A name with its schemas begins with no keyword. -/
theorem startsWith_qualified {text : String} {tokens : List SqlToken}
    (written : tokens ∈ qualified text) {word : String} (listed : word ∈ keywords)
    (rest : List SqlToken) : startsWith word (tokens ++ rest) = false := by
  -- The first segment is a name, and names are no keywords.
  obtain ⟨first, later, rfl, -, free⟩ := qualified_begins written
  exact startsWith_name free listed (later ++ rest)

/-- The words for what is there already are passed over. -/
theorem skipIfNotExists_optional {tokens rest : List SqlToken}
    (optionally : tokens ∈ optional Statement.ifNotExists) (apart : startsWith "if" rest = false) :
    skipIfNotExists (tokens ++ rest) = rest :=
  skipIfNotExists_phrase optionally (by simp [skipIfNotExists, apart])

/-- The name of a created index is a path, if it has one. -/
theorem isIndexName_of_mem {given : Option String} {named : List SqlToken}
    (isNamed : named ∈ Statement.indexName given) : IsIndexName given named := by
  -- Without a name there are no tokens, and with one they are its path.
  cases given with
  | none => exact .inl ⟨rfl, isNamed⟩
  | some text => exact .inr ⟨text, rfl, isPath_of_qualified isNamed⟩

/-- The name of a created index begins with no keyword. -/
theorem startsWith_indexName {given : Option String} {named : List SqlToken}
    (isNamed : named ∈ Statement.indexName given) {word : String} (listed : word ∈ keywords) :
    startsWith word named = false := by
  -- Without a name nothing is written, and a name begins with none of the keywords.
  cases given with
  | none =>
    obtain rfl : named = [] := isNamed
    rfl
  | some text => exact List.append_nil named ▸ startsWith_qualified isNamed listed []

/-- What stands behind the words that create an index is read as that index. -/
theorem ofCreateIndex_body {given : Option String} {table : String} {items : List IndexItem}
    {isPartial : Bool} {tokens : List SqlToken} (isUnique : Bool)
    (written : tokens ∈ Statement.indexBody given table items isPartial) :
    ofCreateIndex isUnique tokens =
      some ⟨given.getD (IndexDefinition.generatedName table (items.map (·.column?)) "idx"), table,
        items.map (·.column?), isUnique, isPartial⟩ := by
  simp only [Statement.indexBody, mul_assoc] at written
  obtain ⟨concurrent, isConcurrent, _, ⟨guard, isGuard, _, ⟨named, isNamed, _, ⟨_,
    ⟨word, isOn, rfl⟩, _, ⟨only, isOnly, _, ⟨path, isTable, _, ⟨method, isMethod, _, ⟨list, isList,
      behind, ⟨-, isTail⟩, rfl⟩, rfl⟩, rfl⟩, rfl⟩, rfl⟩, rfl⟩, rfl⟩, rfl⟩ := written
  have isMethodToo : method ∈ optional (keyword "using" * someIdentifier) := by
    rcases mem_optional.mp isMethod with ⟨front, isUsing, _, ⟨text, isName⟩, rfl⟩ | rfl
    · obtain ⟨token, known, -, rfl⟩ := mem_name isName
      exact .inl ⟨front, isUsing, _, ⟨text, mem_identifier.mpr ⟨token, known, rfl⟩⟩, rfl⟩
    · exact .inr rfl
  obtain ⟨inside, bracket, -, -⟩ := mem_itemList isList
  obtain ⟨inner, bracketed, columns⟩ := readBracketed?_itemList isList behind
  -- Names that are no keywords are none of the words that come in their place.
  let body : IndexBody :=
    { given := given
      table := table
      named := named
      on := word
      path := path
      listed := list ++ behind
      isNamed := isIndexName_of_mem isNamed
      isOn := isOn
      isPath := isPath_of_qualified isTable
      isListed := by simp [bracket]
      apart := ⟨startsWith_indexName isNamed (by decide), startsWith_indexName isNamed (by decide),
        List.append_nil path ▸ startsWith_qualified isTable (by decide) []⟩ }
  have read := body.ofCreateIndex_worded isUnique (body.mem_worded isConcurrent isGuard isOnly
    isMethodToo)
  simpa [IndexBody.definition?, body, bracketed, columns, isTail] using read

/-- The elements of a table are read from their brackets. -/
theorem filterMap_elements {elements : List TableElement} {inside : List SqlToken}
    (areElements : inside ∈ listed TableElement.written elements) (table : String) :
    (splitCommas inside).filterMap
        (fun part => (ofTableElement table part).or (ofColumn table part)) =
      elements.filterMap (·.definition? table) := by
  -- Without elements nothing stands in the brackets, and otherwise commas divide them.
  cases elements with
  | nil =>
    obtain rfl : inside = [] := areElements
    rfl
  | cons element elements =>
    exact filterMap_splitCommas areElements (by simp) (fun _ _ _ => TableElement.isPart_written)
      fun _ _ written => TableElement.read_written written table

/-- What stands behind the words that create a table is read as its keys. -/
theorem ofCreateTable_body {table : String} {elements : List TableElement} {tokens : List SqlToken}
    (written : tokens ∈ Statement.tableBody table elements) :
    ofCreateTable tokens = elements.filterMap (·.definition? table) := by
  simp only [Statement.tableBody, mul_assoc] at written
  obtain ⟨guard, isGuard, _, ⟨path, isTable, _, ⟨_, rfl, _, ⟨inside, areElements, _, ⟨_, rfl,
    behind, -, rfl⟩, rfl⟩, rfl⟩, rfl⟩, rfl⟩ := written
  -- The name of the table is no keyword, so without a guard none is seen.
  have noGuard : ∀ rest, startsWith "if" (path ++ rest) = false :=
    startsWith_qualified isTable (by decide)
  have balanced : Balanced inside := balanced_listed areElements fun _ _ _ isElement =>
    (TableElement.isPart_written isElement).balanced
  have noDot : ∀ rest, (SqlToken.punctuation '(' :: rest).head? ≠ some (.punctuation '.') := by
    simp
  simp only [List.cons_append, List.nil_append, ofCreateTable]
  rw [skipIfNotExists_optional isGuard (noGuard _),
    (isPath_of_qualified isTable).readQualified_eq (noDot _),
    readBracketed?_group balanced]
  exact filterMap_elements areElements table

/-- The keys that an alteration adds are read behind the word for each of them. -/
theorem keysOf_listed {keys : List TableKey} {tokens : List SqlToken}
    (areKeys : tokens ∈ listed (fun key => keyword "add" * TableKey.written key) keys)
    (table : String) : keysOf table (splitCommas tokens) = keys.map (·.definition table) := by
  rw [keysOf, ← List.filterMap_eq_map]
  cases keys with
  | nil =>
    obtain rfl : tokens = [] := areKeys
    rfl
  | cons key keys =>
    -- Each element is the word that adds and a key, so the commas in between divide them.
    refine filterMap_splitCommas areKeys (by simp) ?_ ?_
    · rintro key - _ ⟨front, isAdd, part, isKey, rfl⟩
      exact (isPart_of_isPlain (isPlain_keyword front isAdd)).append (TableKey.isPart_written isKey)
    · rintro key _ ⟨_, ⟨token, isAdd, rfl⟩, part, isKey, rfl⟩
      have read := TableKey.ofTableElement_written isKey table
      simp [isAdd, read]

/-- What is done to a table does not begin with a dot. -/
theorem head?_ne_of_keys {keys : List TableKey} {tokens : List SqlToken}
    (areKeys : tokens ∈ listed (fun key => keyword "add" * TableKey.written key) keys) :
    tokens.head? ≠ some (.punctuation '.') := by
  -- Each key begins with a keyword, which is no dot.
  cases keys with
  | nil =>
    obtain rfl : tokens = [] := areKeys
    simp
  | cons key keys =>
    obtain ⟨_, ⟨_, ⟨token, isAdd, rfl⟩, part, -, rfl⟩, rest, rfl⟩ := listed_begins areKeys
    exact head?_ne_of_isKeyword isAdd '.' _

/-- What stands behind the words that alter a table is read as the keys that it is given. -/
theorem ofAlterTable_body {table : String} {keys : List TableKey} {tokens : List SqlToken}
    (written : tokens ∈ Statement.keysBody table keys) :
    ofAlterTable tokens = keys.map (·.definition table) := by
  simp only [Statement.keysBody, mul_assoc] at written
  obtain ⟨only, isOnly, _, ⟨guard, isGuard, _, ⟨path, isTable, actions, areKeys, rfl⟩, rfl⟩, rfl⟩ :=
    written
  -- The words in front are passed, the table is read, and each of the keys behind it.
  have free : ∀ word ∈ ["only", "if"], startsWith word (path ++ actions) = false :=
    fun word listed => startsWith_qualified isTable (by revert word; decide) actions
  have behind := behindWords_neutral ⟨only, isOnly, guard, isGuard, rfl⟩ free
  rw [List.append_assoc] at behind
  rw [ofAlterTable_path (isPath_of_qualified isTable) (head?_ne_of_keys areKeys) behind,
    keysOf_listed areKeys]

end IndexStatement

end IndexAudit
