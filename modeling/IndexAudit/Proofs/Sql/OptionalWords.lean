import IndexAudit.Proofs.Sql.Comment

/-!
Words of a statement that say nothing of the indexes it defines.

An index may be created concurrently, on a table alone and by a method, and a table be altered if it
is there, or on its own. The reader passes over these words and finds the same indexes, whatever
they list. It takes one word of each kind in one order, though: an `ONLY` behind `IF EXISTS` comes
where it reads the name of the table, and a table called `if` comes where it reads `IF EXISTS`.
-/

namespace IndexAudit

namespace IndexStatement

open SqlToken
open scoped Computability

/-! Created indexes. -/

/-- A statement that creates an index, in its parts between which words may be put in. -/
structure CreatedIndex extends IndexBody where
  isUnique : Bool
  /-- The words `CREATE [UNIQUE] INDEX`. -/
  front : List SqlToken
  isFront : front ∈
    keyword "create" * (if isUnique then keyword "unique" else 1) * keyword "index"

namespace CreatedIndex

variable (created : CreatedIndex)

/-- The statement with no word put in. -/
def plain : List SqlToken :=
  created.front ++ created.named ++ [created.on] ++ created.path ++ created.listed

/-- The statement with any words put in between its parts. -/
def worded : Language SqlToken :=
  exactly created.front * created.toIndexBody.worded

/-- The statement with no word put in is one of those with words. -/
theorem plain_mem_worded : created.plain ∈ created.worded := by
  -- Each optional phrase is left out.
  refine ⟨_, rfl, _, created.mem_worded (.inr rfl) (.inr rfl) (.inr rfl) (.inr rfl), ?_⟩
  simp [plain]

/-- The statement is read as its index, whatever words are put in. -/
theorem definitions_worded {tokens : List SqlToken} (written : tokens ∈ created.worded) :
    definitions tokens = (created.definition? created.isUnique).toList := by
  -- The words in front tell what is created and whether it is unique; the body is read behind.
  obtain ⟨_, rfl, body, isBody, rfl⟩ := written
  obtain ⟨_, ⟨_, ⟨first, isCreate, rfl⟩, flag, isFlag, rfl⟩, _, ⟨word, isIndex, rfl⟩, whole⟩ :=
    created.isFront
  obtain ⟨flagged, behind⟩ := Statement.unique_flag isFlag isIndex body
  have read := created.ofCreateIndex_worded created.isUnique isBody
  rw [← whole]
  simp [definitions, isCreate, flagged, behind, isIndex, read]

end CreatedIndex

/-! Altered tables. -/

/-- Behind `IF EXISTS` the name of the table is read. -/
theorem behindWords_ifExists {words : List SqlToken}
    (areWords : words ∈ keyword "if" * keyword "exists") (rest : List SqlToken) :
    behindWords (words ++ rest) = rest := by
  -- Both words are skipped, one after the other, and no other word stands in front.
  obtain ⟨_, ⟨first, isIf, rfl⟩, _, ⟨second, doesExist, rfl⟩, rfl⟩ := areWords
  have notOnly : first.isKeyword "only" = false := (isKeyword_other isIf).trans (by decide)
  simp [behindWords, skip, notOnly, isIf, doesExist]

/-- An `IF` with no `EXISTS` behind it is passed over all the same. -/
theorem behindWords_if {words rest : List SqlToken} {word : SqlToken}
    (areWords : words ∈ optional (keyword "only")) (isIf : word.isKeyword "if" = true)
    (noExists : startsWith "exists" rest = false) : behindWords (words ++ word :: rest) = rest := by
  -- The first word is skipped if it is there, and the second on its own.
  have notOnly : startsWith "only" (word :: rest) = false :=
    (isKeyword_other isIf).trans (by decide)
  simp only [behindWords]
  rw [skip_optional areWords notOnly]
  simp [isIf, skip, noExists]

/-- Where no key is declared, none is read. -/
theorem ofTableElement_none {element : List SqlToken}
    (free : ∀ word ∈ ["constraint", "primary", "unique", "index", "key"],
      startsWith word element = false) (table : String) : ofTableElement table element = none := by
  -- All that a key can begin with is excluded.
  simp [ofTableElement, readKind?, free "constraint" (by simp), free "primary" (by simp),
    free "unique" (by simp), free "index" (by simp), free "key" (by simp)]

/-- Tokens that begin with a keyword have it for their first token. -/
theorem exists_of_startsWith {word : String} {tokens : List SqlToken}
    (starts : startsWith word tokens = true) :
    ∃ first rest, tokens = first :: rest ∧ first.isKeyword word = true := by
  -- Without tokens nothing begins.
  cases tokens with
  | nil => cases starts
  | cons first rest => exact ⟨first, rest, rfl, starts⟩

/-- A name in front of actions makes the first of them none that adds a key. -/
theorem keysOf_path {text table : String} {path actions : List SqlToken} (isPath : IsPath text path)
    (adds : startsWith "add" actions = true) :
    keysOf table (splitCommas (path ++ actions)) = keysOf table ((splitCommas actions).drop 1) := by
  obtain ⟨add, more, rfl, isAdd⟩ := exists_of_startsWith adds
  obtain ⟨first, others, parts⟩ :=
    List.exists_cons_of_ne_nil (Cut.split_ne_nil cutAtComma 0 0 none more)
  have plain : IsPlain add := isPlain_keyword [add] ⟨add, isAdd, rfl⟩ add (by simp)
  have divided (front : List SqlToken) (isPart : IsPart front) :
      splitCommas (front ++ more) = (front ++ first) :: others := by
    rw [split_part isPart, splitCommas, parts, Cut.foldr_extendFirst]
  have own := divided [add] (.level plain.level plain.noComma .nil)
  have behind := divided (path ++ [add])
    ((isPart_of_isPlain isPath.isPlain).append (.level plain.level plain.noComma .nil))
  rw [List.append_assoc] at behind
  simp only [List.cons_append, List.nil_append] at own behind
  rw [own, behind]
  -- Behind the name the word for an addition stands where the kind of the key is read.
  have lost : (if startsWith "add" (path ++ [add] ++ first) then
      ofTableElement table ((path ++ [add] ++ first).drop 1) else none) = none := by
    split
    · refine ofTableElement_none (fun word listed => ?_) table
      obtain ⟨head, later, rfl, -, rfl | dotted⟩ := isPath.begins
      · exact (isKeyword_other isAdd).trans (by revert word; decide)
      · obtain ⟨names, rfl⟩ := List.head?_eq_some_iff.mp dotted
        rfl
    · rfl
  rw [keysOf, List.filterMap_cons, lost]
  rfl

/-- A statement that alters a table, in its parts between which words may be put in. -/
structure AlteredTable where
  table : String
  /-- The words `ALTER TABLE`. -/
  front : List SqlToken
  path : List SqlToken
  /-- What is done to the table. -/
  actions : List SqlToken
  isFront : front ∈ keyword "alter" * keyword "table"
  isPath : IsPath table path
  ends : actions.head? ≠ some (.punctuation '.')

namespace AlteredTable

variable (altered : AlteredTable)

/-- The statement with some words in front of the name of the table. -/
def worded (words : List SqlToken) : List SqlToken :=
  altered.front ++ words ++ altered.path ++ altered.actions

/-- Behind the words that alter a table its keys are read. -/
theorem definitions_front (body : List SqlToken) :
    definitions (altered.front ++ body) = ofAlterTable body := by
  -- The first two words tell that a table is altered.
  obtain ⟨_, ⟨first, isAlter, rfl⟩, _, ⟨second, isTable, rfl⟩, whole⟩ := altered.isFront
  have notCreate : first.isKeyword "create" = false := (isKeyword_other isAlter).trans (by decide)
  rw [← whole]
  simp [definitions, notCreate, isAlter, isTable]

/-- The statement is read as its keys if the words in it lead to the name of the table. -/
theorem definitions_behind {words : List SqlToken}
    (behind : behindWords (words ++ (altered.path ++ altered.actions)) =
      altered.path ++ altered.actions) :
    definitions (altered.worded words) = keysOf altered.table (splitCommas altered.actions) := by
  -- The words in front and those put in are passed, and then the path is read.
  rw [worded, List.append_assoc, List.append_assoc, definitions_front,
    ofAlterTable_path altered.isPath altered.ends behind]

/-- The statement is read as its keys if words that are passed over are put in. -/
theorem definitions_neutral (free : ∀ word ∈ ["only", "if"], startsWith word altered.path = false)
    {words : List SqlToken} (areWords : words ∈ neutralWords) :
    definitions (altered.worded words) = keysOf altered.table (splitCommas altered.actions) :=
  -- The path begins with neither word, so all that may be put in is passed.
  altered.definitions_behind (behindWords_neutral areWords fun word listed =>
    (altered.isPath.startsWith_append word _).trans (free word listed))

/-- An `ONLY` behind `IF EXISTS` is read as the table, and the first action as none. -/
theorem definitions_only (adds : startsWith "add" altered.actions = true)
    {words : List SqlToken} (areWords : words ∈ keyword "if" * keyword "exists") (only : String) :
    definitions (altered.worded (words ++ [.word only])) =
      keysOf only ((splitCommas altered.actions).drop 1) := by
  -- Behind the two words the third is read as the path, and the true path spoils the first action.
  have isOnly : IsPath only [.word only] := .last rfl
  have behind : behindWords (words ++ ([.word only] ++ (altered.path ++ altered.actions))) =
      [.word only] ++ (altered.path ++ altered.actions) := behindWords_ifExists areWords _
  rw [worded, List.append_assoc, List.append_assoc, List.append_assoc, definitions_front,
    ofAlterTable_path isOnly (altered.isPath.head?_ne _) behind, keysOf_path altered.isPath adds]

/-- A table called `if` is passed over, as if `IF EXISTS` stood in place of its name. -/
theorem definitions_if (adds : startsWith "add" altered.actions = true)
    (called : startsWith "if" altered.path = true) {only words : List SqlToken}
    (isOnly : only ∈ optional (keyword "only"))
    (areWords : words ∈ keyword "if" * keyword "exists") :
    definitions (altered.worded only) =
      definitions (altered.front ++ words ++ altered.path.drop 1 ++ altered.actions) := by
  obtain ⟨first, more, path, -, ends⟩ := altered.isPath.begins
  rw [path] at called
  -- Behind the name there is a dot or the first action; neither is the word that is due.
  have noExists : startsWith "exists" (more ++ altered.actions) = false := by
    rcases ends with rfl | dotted
    · obtain ⟨add, later, actions, isAdd⟩ := exists_of_startsWith adds
      rw [actions]
      exact (isKeyword_other isAdd).trans (by decide)
    · obtain ⟨later, rfl⟩ := List.head?_eq_some_iff.mp dotted
      rfl
  have passed : behindWords (only ++ (altered.path ++ altered.actions)) =
      behindWords (words ++ (altered.path.drop 1 ++ altered.actions)) := by
    rw [behindWords_ifExists areWords, path]
    exact behindWords_if isOnly called noExists
  simp only [worded, List.append_assoc, definitions_front, ofAlterTable_eq, passed]

end AlteredTable

/-! Scripts. -/

/-- A statement in two forms, of which the second has words put in that the reader passes over. -/
inductive AddsWords : List SqlToken → List SqlToken → Prop
  | same (statement : List SqlToken) : AddsWords statement statement
  | createIndex (created : CreatedIndex) {statement : List SqlToken}
      (written : statement ∈ created.worded) : AddsWords created.plain statement
  | alterTable (altered : AlteredTable)
      (free : ∀ word ∈ ["only", "if"], startsWith word altered.path = false)
      {words : List SqlToken} (areWords : words ∈ neutralWords) :
      AddsWords (altered.worded []) (altered.worded words)

/-- Words that are passed over leave the indexes of a statement as they are. -/
theorem AddsWords.definitions_eq {plain worded : List SqlToken} (adds : AddsWords plain worded) :
    definitions worded = definitions plain := by
  -- Either statement is read with any words put in, none among them.
  cases adds with
  | same => rfl
  | createIndex created written =>
    rw [created.definitions_worded written, created.definitions_worded created.plain_mem_worded]
  | alterTable altered free areWords =>
    rw [altered.definitions_neutral free areWords,
      altered.definitions_neutral free nil_mem_neutralWords]

/-- The indexes of texts are the same if those of their statements are. -/
theorem scan_congr {plain worded : List Char}
    (same : List.Forall₂ (fun first second => definitions second = definitions first)
      (statements (tokenize plain)) (statements (tokenize worded))) (file : String) :
    scan worded file = scan plain file := by
  rw [scan_eq, scan_eq]
  generalize statements (tokenize plain) = first at same
  generalize statements (tokenize worded) = second at same
  -- Statements are read one by one.
  induction same with
  | nil => rfl
  | cons here _ ih => rw [List.flatMap_cons, List.flatMap_cons, here, ih]

/-- A text of one statement defines the indexes of that statement. -/
theorem scan_single {text : List Char} {statement : List SqlToken}
    (single : statements (tokenize text) = [statement]) (file : String) :
    scan text file = (definitions statement).flatMap (·.indexedColumns file) := by
  rw [scan_eq, single, List.flatMap_singleton]

/--
Words that may be left out say nothing of the indexes that a text defines.

There are two exceptions. An `ONLY` behind `IF EXISTS` is taken for the table: the first action is
lost, and the keys of all later ones are found for a table called `ONLY`. And a table whose name
begins with a bare `if` is passed over if `IF EXISTS` is missing, as if it stood in its place.
-/
theorem scan_optionalWords (file : String) :
    (∀ plain worded : List Char,
      List.Forall₂ AddsWords (statements (tokenize plain)) (statements (tokenize worded)) →
        scan worded file = scan plain file) ∧
    ∀ (altered : AlteredTable) (words : List SqlToken) (text : List Char),
      startsWith "add" altered.actions = true →
      statements (tokenize text) = [altered.worded words] →
      (words ∈ keyword "if" * keyword "exists" ∨
          words ∈ neutralWords ∧ (∀ word ∈ ["only", "if"], startsWith word altered.path = false) →
        scan text file = (keysOf altered.table (splitCommas altered.actions)).flatMap
          (·.indexedColumns file)) ∧
      (∀ ifExists ∈ keyword "if" * keyword "exists", ∀ only : String,
        (SqlToken.word only).isKeyword "only" = true → words = ifExists ++ [.word only] →
        scan text file = (keysOf only ((splitCommas altered.actions).drop 1)).flatMap
          (·.indexedColumns file)) ∧
      (words ∈ optional (keyword "only") → startsWith "if" altered.path = true →
        ∀ ifExists ∈ keyword "if" * keyword "exists", ∀ other : List Char,
        statements (tokenize other) =
          [altered.front ++ ifExists ++ altered.path.drop 1 ++ altered.actions] →
        scan text file = scan other file) := by
  constructor
  · intro plain worded adds
    exact scan_congr (adds.imp fun _ _ => AddsWords.definitions_eq) file
  intro altered words text adds single
  rw [scan_single single]
  refine ⟨?read, ?only, ?called⟩
  case read =>
    rintro (ifExists | ⟨areWords, free⟩)
    · rw [altered.definitions_behind (behindWords_ifExists ifExists _)]
    · rw [altered.definitions_neutral free areWords]
  -- In this order `ONLY` is read as the name of the table, and the real one as an action.
  case only =>
    rintro ifExists areWords only - rfl
    rw [altered.definitions_only adds areWords]
  -- A table that is called `if` is taken for the option unless that is there as well.
  case called =>
    intro isOnly called ifExists areWords other isOther
    rw [scan_single isOther, altered.definitions_if adds called isOnly areWords]

/-- An index on a table in a schema. -/
def logIndex : CreatedIndex where
  isUnique := false
  given := some "ix"
  table := "logs"
  front := [.word "CREATE", .word "INDEX"]
  named := [.word "ix"]
  on := .word "ON"
  path := [.word "app", .punctuation '.', .word "logs"]
  listed := [.punctuation '(', .word "at", .punctuation ')']
  isFront := ⟨_, ⟨_, ⟨_, by decide, rfl⟩, [], rfl, rfl⟩, _, ⟨_, by decide, rfl⟩, rfl⟩
  isNamed := .inr ⟨_, rfl, .last rfl⟩
  isOn := by decide
  isPath := .inside rfl (.last rfl)
  isListed := rfl
  apart := by decide

/-- The way that the index is written with all words put in. -/
def logIndexTokens : List SqlToken :=
  [.word "CREATE", .word "INDEX", .word "CONCURRENTLY", .word "IF", .word "NOT", .word "EXISTS",
    .word "ix", .word "ON", .word "ONLY", .word "app", .punctuation '.', .word "logs",
    .word "USING", .word "brin", .punctuation '(', .word "at", .punctuation ')']

/-- The index is written with words that may be put in. -/
theorem logIndex_worded : logIndexTokens ∈ logIndex.worded := by
  -- Each of the words is one choice of what may be put in.
  have concurrently : [.word "CONCURRENTLY"] ∈ optional (keyword "concurrently") :=
    .inl ⟨_, by decide, rfl⟩
  have guard : [.word "IF", .word "NOT", .word "EXISTS"] ∈ optional Statement.ifNotExists :=
    .inl ⟨_, ⟨_, by decide, rfl⟩, _, ⟨_, ⟨_, by decide, rfl⟩, _, ⟨_, by decide, rfl⟩, rfl⟩, rfl⟩
  have only : [.word "ONLY"] ∈ optional (keyword "only") := .inl ⟨_, by decide, rfl⟩
  have method : [.word "USING", .word "brin"] ∈ optional (keyword "using" * someIdentifier) :=
    .inl ⟨_, ⟨_, by decide, rfl⟩, _, ⟨"brin", .inl rfl⟩, rfl⟩
  exact ⟨_, rfl, _, logIndex.mem_worded concurrently guard only method, rfl⟩

/-- Two keys for a table of some name. -/
def addedKeys (name : String) : AlteredTable where
  table := name
  front := [.word "ALTER", .word "TABLE"]
  path := [.word name]
  actions := [.word "ADD", .word "UNIQUE", .punctuation '(', .word "email", .punctuation ')',
    .punctuation ',', .word "ADD", .word "PRIMARY", .word "KEY", .punctuation '(', .word "id",
    .punctuation ')']
  isFront := ⟨_, ⟨_, by decide, rfl⟩, _, ⟨_, by decide, rfl⟩, rfl⟩
  isPath := .last rfl
  ends := by decide

/--
An index and two keys are the same with and without such words. With `ONLY` behind `IF EXISTS`, and
for a table that is called `if`, one of the keys is lost.
-/
theorem scan_optionalWords_addedKeys :
    scan ("CREATE INDEX CONCURRENTLY IF NOT EXISTS ix ON ONLY app.logs USING brin (at);".toList ++
        "ALTER TABLE IF EXISTS users ADD UNIQUE (email), ADD PRIMARY KEY (id)".toList) "V1.sql" =
      scan ("CREATE INDEX ix ON app.logs (at);".toList ++
        "ALTER TABLE users ADD UNIQUE (email), ADD PRIMARY KEY (id)".toList) "V1.sql" ∧
    scan "ALTER TABLE users ADD UNIQUE (email), ADD PRIMARY KEY (id)".toList "V1.sql" =
      [⟨"users", "email", "users_email_key", "V1.sql", true, false, 0⟩,
        ⟨"users", "id", "users_pkey", "V1.sql", true, false, 0⟩] ∧
    scan "ALTER TABLE IF EXISTS ONLY users ADD UNIQUE (email), ADD PRIMARY KEY (id)".toList
        "V1.sql" = [⟨"ONLY", "id", "ONLY_pkey", "V1.sql", true, false, 0⟩] ∧
    scan "ALTER TABLE if ADD UNIQUE (email), ADD PRIMARY KEY (id)".toList "V1.sql" =
      scan "ALTER TABLE IF EXISTS ADD UNIQUE (email), ADD PRIMARY KEY (id)".toList "V1.sql" := by
  have ifExists : [.word "IF", .word "EXISTS"] ∈ keyword "if" * keyword "exists" :=
    ⟨_, ⟨_, by decide, rfl⟩, _, ⟨_, by decide, rfl⟩, rfl⟩
  obtain ⟨neutral, altered⟩ := scan_optionalWords "V1.sql"
  obtain ⟨read, -, -⟩ := altered (addedKeys "users") []
    "ALTER TABLE users ADD UNIQUE (email), ADD PRIMARY KEY (id)".toList
    (by decide) (by decide +kernel)
  obtain ⟨-, only, -⟩ := altered (addedKeys "users") [.word "IF", .word "EXISTS", .word "ONLY"]
    "ALTER TABLE IF EXISTS ONLY users ADD UNIQUE (email), ADD PRIMARY KEY (id)".toList
    (by decide) (by decide +kernel)
  obtain ⟨-, -, called⟩ := altered (addedKeys "if") []
    "ALTER TABLE if ADD UNIQUE (email), ADD PRIMARY KEY (id)".toList
    (by decide) (by decide +kernel)
  refine ⟨neutral _ _ ?_, (read (.inr ⟨nil_mem_neutralWords, by decide⟩)).trans (by decide +kernel),
    (only _ ifExists "ONLY" (by decide) rfl).trans (by decide +kernel),
    called (.inr rfl) (by decide) _ ifExists
      "ALTER TABLE IF EXISTS ADD UNIQUE (email), ADD PRIMARY KEY (id)".toList (by decide +kernel)⟩
  -- Both files are cut into the same two statements, one with and one without the words.
  have whole : statements (tokenize ("CREATE INDEX ix ON app.logs (at);".toList ++
      "ALTER TABLE users ADD UNIQUE (email), ADD PRIMARY KEY (id)".toList)) =
      [logIndex.plain, (addedKeys "users").worded []] := by decide +kernel
  have wholeWorded : statements (tokenize
      ("CREATE INDEX CONCURRENTLY IF NOT EXISTS ix ON ONLY app.logs USING brin (at);".toList ++
        "ALTER TABLE IF EXISTS users ADD UNIQUE (email), ADD PRIMARY KEY (id)".toList)) =
      [logIndexTokens, (addedKeys "users").worded [.word "IF", .word "EXISTS"]] := by
    decide +kernel
  rw [whole, wholeWorded]
  exact .cons (.createIndex logIndex logIndex_worded)
    (.cons (.alterTable (addedKeys "users") (by decide) ⟨[], .inr rfl, _, .inl ifExists, rfl⟩) .nil)

end IndexStatement

end IndexAudit
