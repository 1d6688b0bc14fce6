import IndexAudit.Proofs.Sql.IndexScan
import IndexAudit.Proofs.Sql.Spelling
import IndexAudit.Proofs.Text.Search
import Mathlib

/-!
The statements of a script are read back as what they say.

Each column of an index is listed once, with its place among all items of the index.
-/

namespace IndexAudit

/-- The columns that an index lists, each one with its place among all items. -/
def IndexDefinition.listedColumns (definition : IndexDefinition) (file : String) :
    List IndexedColumn :=
  definition.columns.zipIdx.filterMap fun (column?, place) => column?.map fun column =>
    { table := definition.table
      column := column
      index := definition.name
      file := file
      isUnique := definition.isUnique
      isPartial := definition.isPartial
      position := place }

/-- The columns of an index are those that it lists. -/
theorem IndexDefinition.indexedColumns_eq (definition : IndexDefinition) (file : String) :
    definition.indexedColumns file = definition.listedColumns file := by
  -- The items are walked from a place on, which is any place behind the first step.
  suffices walked : ∀ columns place, definition.columnsFrom file place columns =
      (columns.zipIdx place).filterMap fun (column?, place) => column?.map fun column =>
        ⟨definition.table, column, definition.name, file, definition.isUnique,
          definition.isPartial, place⟩ from walked definition.columns 0
  intro columns
  induction columns with
  | nil => exact fun place => rfl
  | cons column? columns ih =>
    intro place
    cases column? with
    | none => simp [columnsFrom, ih]
    | some column => simp [columnsFrom, ih]

namespace IndexStatement

open SqlToken
open scoped Computability

/-- Statements with semicolons between them; the last one may have one behind it as well. -/
def script : List Statement → Language SqlToken
  | [] => 1
  | [statement] => statement.written * optional (lone (.punctuation ';'))
  | statement :: next :: statements =>
    statement.written * lone (.punctuation ';') * script (next :: statements)

namespace Statement

/-- Whether a created index is unique is told in front of the word for an index. -/
theorem unique_flag {isUnique : Bool} {flag : List SqlToken} {word : SqlToken}
    (isFlag : flag ∈ (if isUnique then keyword "unique" else 1 : Language SqlToken))
    (isIndex : word.isKeyword "index" = true) (body : List SqlToken) :
    startsWith "unique" (flag ++ word :: body) = isUnique ∧
      skip "unique" (flag ++ word :: body) = word :: body := by
  -- Without the flag the next word is another keyword.
  cases isUnique with
  | false =>
    obtain rfl : flag = [] := isFlag
    have apart : word.isKeyword "unique" = false := (isKeyword_other isIndex).trans (by decide)
    simp [skip, apart]
  | true =>
    obtain ⟨token, found, rfl⟩ := isFlag
    simp [skip, found]

/-- A statement is read as the indexes that it defines. -/
theorem definitions_written {statement : Statement} {tokens : List SqlToken}
    (written : tokens ∈ statement.written) :
    IndexStatement.definitions tokens = statement.definitions := by
  cases statement with
  | createIndex isUnique given table items isPartial =>
    obtain ⟨_, ⟨_, ⟨_, ⟨first, isCreate, rfl⟩, flag, isFlag, rfl⟩, _, ⟨word, isIndex, rfl⟩, rfl⟩,
      body, isBody, rfl⟩ := written
    obtain ⟨flagged, behind⟩ := unique_flag isFlag isIndex body
    simp [IndexStatement.definitions, isCreate, flagged, behind, isIndex,
      ofCreateIndex_body isUnique isBody, definitions]
  | createTable table elements =>
    obtain ⟨_, ⟨_, ⟨first, isCreate, rfl⟩, _, ⟨second, isTable, rfl⟩, rfl⟩, body, isBody, rfl⟩ :=
      written
    -- The word behind CREATE is TABLE, so neither that for a unique index nor that for a plain one.
    have notUnique : second.isKeyword "unique" = false :=
      (isKeyword_other isTable).trans (by decide)
    have notIndex : second.isKeyword "index" = false := (isKeyword_other isTable).trans (by decide)
    simp [IndexStatement.definitions, isCreate, skip, notUnique, notIndex, isTable,
      ofCreateTable_body isBody, definitions]
  | alterTable table keys =>
    obtain ⟨_, ⟨_, ⟨first, isAlter, rfl⟩, _, ⟨second, isTable, rfl⟩, rfl⟩, body, isBody, rfl⟩ :=
      written
    have notCreate : first.isKeyword "create" = false := (isKeyword_other isAlter).trans (by decide)
    simp [IndexStatement.definitions, notCreate, isAlter, isTable, ofAlterTable_body isBody,
      definitions]

/-- The tokens of an index's name are plain. -/
theorem isPlain_indexName (given : Option String) : Each IsPlain (indexName given) := by
  -- It is a path, or nothing.
  cases given with
  | none => exact .one
  | some given => exact isPlain_qualified given

/-- The words for what is there already are plain. -/
theorem isPlain_ifNotExists : Each IsPlain ifNotExists :=
  isPlain_keyword.mul (isPlain_keyword.mul isPlain_keyword)

/-- A statement does not end in what stands behind the words that create an index. -/
theorem goesOn_indexBody (given : Option String) (table : String) (items : List IndexItem)
    (isPartial : Bool) : Each GoesOn (indexBody given table items isPartial) := by
  -- Up to the items the words and names are plain, and a tail holds no end by definition.
  have word : ∀ own, Each IsPlain (keyword own) := fun _ => isPlain_keyword
  have guarded := (word "concurrently").optional.mul isPlain_ifNotExists.optional
  have named := guarded.mul (isPlain_indexName given)
  have placed := ((named.mul (word "on")).mul (word "only").optional).mul (isPlain_qualified table)
  have opening := placed.mul ((word "using").mul isPlain_someName).optional
  have behind : Each GoesOn (tail isPartial) := fun tokens isTail token member ends =>
    isTail.1 (ends ▸ member)
  exact ((goesOn_of_isPlain opening).mul (goesOn_itemList items)).mul behind

/-- A statement does not end in what stands behind the words that create a table. -/
theorem goesOn_tableBody (table : String) (elements : List TableElement) :
    Each GoesOn (tableBody table elements) := by
  -- In front of the bracket all is plain, and elements hold no end.
  have opening := goesOn_of_isPlain (isPlain_ifNotExists.optional.mul (isPlain_qualified table))
  have inside : Each GoesOn (listed TableElement.written elements) :=
    .listed (by simp [GoesOn]) fun element _ => TableElement.goesOn_written element
  have brackets : Each GoesOn (lone (.punctuation '(') * listed TableElement.written elements *
      lone (.punctuation ')')) :=
    ((Each.lone (by simp [GoesOn])).mul inside).mul (.lone (by simp [GoesOn]))
  have behind : Each GoesOn anything := fun tokens isBehind token member ends =>
    isBehind (ends ▸ member)
  exact (opening.mul brackets).mul behind

/-- A statement does not end in what stands behind the words that alter a table. -/
theorem goesOn_keysBody (table : String) (keys : List TableKey) :
    Each GoesOn (keysBody table keys) := by
  -- In front of the keys all is plain, and keys hold no end.
  have word : ∀ own, Each IsPlain (keyword own) := fun _ => isPlain_keyword
  have front := ((word "only").optional.mul ((word "if").mul (word "exists")).optional).mul
    (isPlain_qualified table)
  have added : Each GoesOn (listed (fun key => keyword "add" * TableKey.written key) keys) :=
    .listed (by simp [GoesOn]) fun key _ =>
      (goesOn_of_isPlain (word "add")).mul (TableKey.goesOn_written key)
  exact (goesOn_of_isPlain front).mul added

/-- A statement has no end inside. -/
theorem goesOn_written (statement : Statement) : Each GoesOn statement.written := by
  -- A statement is keywords with a body, for each of the three kinds.
  have word : ∀ own, Each GoesOn (keyword own) := fun _ => goesOn_of_isPlain isPlain_keyword
  cases statement with
  | createIndex isUnique given table items isPartial =>
    have flag : Each GoesOn (if isUnique then keyword "unique" else 1) := by
      cases isUnique with
      | false => exact .one
      | true => exact word "unique"
    exact (((word "create").mul flag).mul (word "index")).mul
      (goesOn_indexBody given table items isPartial)
  | createTable table elements =>
    exact ((word "create").mul (word "table")).mul (goesOn_tableBody table elements)
  | alterTable table keys =>
    exact ((word "alter").mul (word "table")).mul (goesOn_keysBody table keys)

/-- A statement begins with a word that a text is searched for. -/
theorem written_begins {statement : Statement} {tokens : List SqlToken}
    (written : tokens ∈ statement.written) :
    ∃ first rest, tokens = first :: rest ∧
      (first.isKeyword "create" = true ∨ first.isKeyword "alter" = true) := by
  -- Each of the three kinds begins with its verb.
  cases statement with
  | createIndex isUnique given table items isPartial =>
    obtain ⟨_, ⟨_, ⟨_, ⟨first, isCreate, rfl⟩, _, -, rfl⟩, _, -, rfl⟩, _, -, rfl⟩ := written
    exact ⟨first, _, rfl, .inl isCreate⟩
  | createTable table elements =>
    obtain ⟨_, ⟨_, ⟨first, isCreate, rfl⟩, _, -, rfl⟩, _, -, rfl⟩ := written
    exact ⟨first, _, rfl, .inl isCreate⟩
  | alterTable table keys =>
    obtain ⟨_, ⟨_, ⟨first, isAlter, rfl⟩, _, -, rfl⟩, _, -, rfl⟩ := written
    exact ⟨first, _, rfl, .inr isAlter⟩

end Statement

/-- A script of two or more statements is the first one, its end, and the others. -/
theorem mem_script_cons {statement next : Statement} {later : List Statement}
    {tokens : List SqlToken} (written : tokens ∈ script (statement :: next :: later)) :
    ∃ part ∈ statement.written, ∃ others ∈ script (next :: later),
      tokens = part ++ .punctuation ';' :: others := by
  -- The end of a statement is a token between it and the others.
  obtain ⟨_, ⟨part, isFirst, _, rfl, rfl⟩, others, areOthers, rfl⟩ := written
  exact ⟨part, isFirst, others, areOthers, by simp⟩

section Divided

variable {statement : Statement} {part : List SqlToken}

/-- A script is divided at the end of its first statement. -/
theorem statements_end (written : part ∈ statement.written) (rest : List SqlToken) :
    statements (part ++ .punctuation ';' :: rest) = part :: statements rest := by
  -- There is no end inside of the statement, and it is not empty.
  have goesOn : .punctuation ';' ∉ part := fun member =>
    statement.goesOn_written part written _ member rfl
  have nonempty : part.isEmpty = false := by
    obtain ⟨first, others, rfl, -⟩ := Statement.written_begins written
    rfl
  rw [statements, List.splitOn_append_cons_self, List.splitOn_eq_singleton goesOn]
  simp [nonempty, statements]

/-- A single statement is not divided. -/
theorem statements_single (written : part ∈ statement.written) : statements part = [part] := by
  -- There is no end inside of the statement, and it is not empty.
  have goesOn : .punctuation ';' ∉ part := fun member =>
    statement.goesOn_written part written _ member rfl
  obtain ⟨first, others, rfl, -⟩ := Statement.written_begins written
  simp [statements, List.splitOn_eq_singleton goesOn]

end Divided

/-- A script is divided into its statements. -/
theorem statements_script {all : List Statement} {tokens : List SqlToken}
    (written : tokens ∈ script all) :
    List.Forall₂ (fun statement part => part ∈ statement.written) all (statements tokens) := by
  have nothing : statements [] = [] := rfl
  -- Each statement but the last one is behind the end of another one.
  induction all generalizing tokens with
  | nil =>
    obtain rfl : tokens = [] := written
    exact nothing ▸ .nil
  | cons statement later ih =>
    cases later with
    | nil =>
      obtain ⟨part, isLast, ending, isEnding, rfl⟩ := written
      rcases mem_optional.mp isEnding with rfl | rfl
      · simp only [statements_end isLast, nothing]
        exact .cons isLast .nil
      · simp only [List.append_nil, statements_single isLast]
        exact .cons isLast .nil
    | cons next later =>
      obtain ⟨part, isFirst, others, areOthers, rfl⟩ := mem_script_cons written
      rw [statements_end isFirst]
      exact .cons isFirst (ih areOthers)

/-- A script begins like its first statement. -/
theorem script_begins {statement : Statement} {later : List Statement} {tokens : List SqlToken}
    (written : tokens ∈ script (statement :: later)) :
    ∃ first ∈ tokens, first.isKeyword "create" = true ∨ first.isKeyword "alter" = true := by
  -- The first statement is a part of the script, and begins with one of the words.
  have front : ∃ part ∈ statement.written, part ⊆ tokens := by
    cases later with
    | nil =>
      obtain ⟨part, isFirst, _, -, rfl⟩ := written
      exact ⟨part, isFirst, List.subset_append_left part _⟩
    | cons next later =>
      obtain ⟨part, isFirst, _, -, rfl⟩ := mem_script_cons written
      exact ⟨part, isFirst, List.subset_append_left part _⟩
  obtain ⟨part, isFirst, within⟩ := front
  obtain ⟨first, rest, rfl, starts⟩ := Statement.written_begins isFirst
  exact ⟨first, within List.mem_cons_self, starts⟩

/-- A bare word of a text is a part of it. -/
theorem infix_of_spells {tokens : List SqlToken} {text : List Char} (spelled : Spells tokens text)
    {word : String} (member : .word word ∈ tokens) : word.toList <:+: text := by
  -- Whatever stands in front of a word is passed over, and the word itself is written as it is.
  induction spelled with
  | done => contradiction
  | blank _ _ ih => exact (ih member).trans (List.suffix_cons _ _).isInfix
  | @lineComment body rest _ _ _ _ ih =>
    exact (ih member).trans (List.suffix_append ('-' :: '-' :: body) rest).isInfix
  | @blockComment body rest _ _ _ ih =>
    have behind := List.suffix_append ('/' :: '*' :: (body ++ ['*', '/'])) rest
    simp only [List.cons_append, List.append_assoc, List.nil_append] at behind
    exact (ih member).trans behind.isInfix
  | openComment _ => contradiction
  | token written _ ih =>
    rcases List.mem_cons.mp member with rfl | later
    · cases written with
      | word starts parts ends =>
        rw [String.toList_ofList]
        exact (List.prefix_append _ _).isInfix
    · exact (ih later).trans (List.suffix_append _ _).isInfix

/-- A keyword of a text is a part of it once letters are raised. -/
theorem infix_of_isKeyword {tokens : List SqlToken} {text : List Char} {word : String}
    (spelled : Spells tokens text) {token : SqlToken} (member : token ∈ tokens)
    (found : token.isKeyword word = true) :
    word.toList.map Char.toUpper <:+: text.map Char.toUpper := by
  -- A bare word is spelled as it is, and raising letters makes it the keyword.
  cases token with
  | word written =>
    have raised : written.toList.map Char.toUpper = word.toList.map Char.toUpper := by
      have lowered := congrArg (List.map Char.toUpper) (eq_of_beq found)
      simpa [List.map_map, Function.comp_def] using lowered
    exact raised ▸ (infix_of_spells spelled member).map Char.toUpper
  | _ => simp [isKeyword] at found

/-- A text that spells a script with statements is not passed over. -/
theorem mayDefine_script {statement : Statement} {later : List Statement} {tokens : List SqlToken}
    {text : List Char} (spelled : Spells tokens text)
    (written : tokens ∈ script (statement :: later)) : mayDefine text = true := by
  -- The first word of the script is found in the text.
  obtain ⟨first, member, starts⟩ := script_begins written
  rw [mayDefine, Bool.or_eq_true]
  rcases starts with isCreate | isAlter
  · exact .inl (splitAtText?_isSome_iff.mpr (infix_of_isKeyword spelled member isCreate))
  · exact .inr (splitAtText?_isSome_iff.mpr (infix_of_isKeyword spelled member isAlter))

/-- The statements of a script are read as the indexes that they define. -/
theorem definitions_script {all : List Statement} {tokens : List SqlToken}
    (written : tokens ∈ script all) :
    (statements tokens).flatMap definitions = all.flatMap (·.definitions) := by
  have divided := statements_script written
  generalize statements tokens = parts at divided ⊢
  clear written
  -- Each part of the text is read as the statement in its place.
  induction divided with
  | nil => rfl
  | cons isStatement _ ih =>
    rw [List.flatMap_cons, List.flatMap_cons, ih, Statement.definitions_written isStatement]

/--
The statements of a script yield the columns that their indexes list, and nothing else.

Expressions yield no entry of their own, but count where the place of a column is told.
-/
theorem scan_script {all : List Statement} {tokens : List SqlToken} {text : List Char}
    (written : tokens ∈ script all) (spelled : Spells tokens text) (file : String) :
    scan text file = all.flatMap fun statement =>
      statement.definitions.flatMap (·.listedColumns file) := by
  have found : tokenize text = tokens := tokenize_of_spells spelled
  have listed : (fun definition : IndexDefinition => definition.indexedColumns file) =
      (·.listedColumns file) :=
    funext fun definition => definition.indexedColumns_eq file
  -- A text in which no statement begins is passed over, and its script is empty.
  cases all with
  | nil =>
    obtain rfl : tokens = [] := written
    have nothing : statements [] = [] := rfl
    simp [scan, found, nothing]
  | cons statement later =>
    rw [scan, if_pos (mayDefine_script spelled written), found, listed, ← List.flatMap_assoc,
      definitions_script written, List.flatMap_assoc]

/-- An index on an expression and a column. -/
def emailIndex : Statement :=
  .createIndex true (some "ux") "users" [.call, .column "email"] true

/-- The way that the index is written. -/
def emailIndexTokens : List SqlToken :=
  [.word "CREATE", .word "UNIQUE", .word "INDEX", .word "ux", .word "ON", .word "app",
    .punctuation '.', .word "users", .punctuation '(', .word "lower", .punctuation '(',
    .word "email", .punctuation ')', .punctuation ',', .word "email", .word "c_ops",
    .word "DESC", .punctuation ')', .word "WHERE", .word "live"]

/-- The index is written in one of the ways to write it. -/
theorem emailIndex_written : emailIndexTokens ∈ emailIndex.written := by
  have unqualified : ∀ text, (SqlToken.word text).isOneOf keywords = false →
      [.word text] ∈ qualified text :=
    fun text free => ⟨[], Language.nil_mem_kstar _, _, ⟨_, rfl, free, rfl⟩, rfl⟩
  -- The table has one schema in front of it.
  have schema : [.word "app", .punctuation '.'] ∈ (someName * lone (.punctuation '.'))∗ :=
    Language.mem_kstar.mpr ⟨[[.word "app", .punctuation '.']], rfl, by
      rintro _ member
      obtain rfl := List.mem_singleton.mp member
      exact ⟨_, ⟨"app", _, rfl, by decide, rfl⟩, _, rfl, rfl⟩⟩
  have table : [.word "app", .punctuation '.', .word "users"] ∈ qualified "users" :=
    ⟨_, schema, _, ⟨_, rfl, by decide, rfl⟩, rfl⟩
  have call : [.word "lower", .punctuation '(', .word "email", .punctuation ')'] ∈
      IndexItem.call.written :=
    ⟨_, ⟨_, ⟨"lower", unqualified "lower" (by decide)⟩, _,
      ⟨[.word "email"], .level rfl .nil, by simp, rfl⟩, rfl⟩, _, Language.nil_mem_kstar _, rfl⟩
  -- Behind the column stand an operator class and a direction.
  have modified : [.word "c_ops", .word "DESC"] ∈ IndexItem.modifier∗ :=
    Language.mem_kstar.mpr ⟨[[.word "c_ops"], [.word "DESC"]], rfl, by
      rintro _ member
      rcases List.mem_pair.mp member with rfl | rfl
      · exact .inr ⟨_, by decide, rfl⟩
      · exact .inl (.inl (.inl (.inr ⟨_, by decide, rfl⟩)))⟩
  have items : [.punctuation '(', .word "lower", .punctuation '(', .word "email", .punctuation ')',
      .punctuation ',', .word "email", .word "c_ops", .word "DESC", .punctuation ')'] ∈
      itemList [.call, .column "email"] :=
    ⟨_, ⟨_, rfl, _, ⟨_, ⟨_, call, _, rfl, rfl⟩, _, ⟨_, .inl rfl, _, modified, rfl⟩, rfl⟩, rfl⟩, _,
      rfl, rfl⟩
  have behind : [.word "WHERE", .word "live"] ∈ Statement.tail true :=
    ⟨(by simp : .punctuation ';' ∉ [SqlToken.word "WHERE", .word "live"]), by decide⟩
  have front : [.word "CREATE", .word "UNIQUE", .word "INDEX"] ∈
      keyword "create" * keyword "unique" * keyword "index" :=
    ⟨_, ⟨_, ⟨_, by decide, rfl⟩, _, ⟨_, by decide, rfl⟩, rfl⟩, _, ⟨_, by decide, rfl⟩, rfl⟩
  exact ⟨_, front, _, ⟨_, ⟨_, ⟨_, ⟨_, ⟨_, ⟨_, ⟨_, ⟨_, .inr rfl, _, .inr rfl, rfl⟩, _,
    unqualified "ux" (by decide), rfl⟩, _, ⟨_, by decide, rfl⟩, rfl⟩, _, .inr rfl, rfl⟩, _, table,
      rfl⟩, _, .inr rfl, rfl⟩, _, items, rfl⟩, _, behind, rfl⟩, rfl⟩

/-- A table with an index of its own and a key of a column. -/
def orderTable : Statement :=
  .createTable "orders" [.column "id" .primary, .key (.index none [.column "code", .column "id"])]

/-- The way that the table is written. -/
def orderTableTokens : List SqlToken :=
  [.word "CREATE", .word "TABLE", .word "orders", .punctuation '(', .word "id", .word "CHAR",
    .punctuation '(', .number, .punctuation ')', .word "PRIMARY", .word "KEY", .punctuation ',',
    .word "KEY", .punctuation '(', .word "code", .punctuation ',', .word "id", .punctuation ')',
    .punctuation ')']

/-- The table is written in one of the ways to write it. -/
theorem orderTable_written : orderTableTokens ∈ orderTable.written := by
  -- The type has an argument in brackets, which is balanced.
  have char : [.word "CHAR", .punctuation '(', .number, .punctuation ')'] ∈
      TableElement.attributes := by
    have number : Balanced [.number] := .level rfl .nil
    exact ⟨.level rfl (by simp) (.group number .nil), by decide⟩
  have nothing : [] ∈ TableElement.attributes := ⟨.nil, List.forall_mem_nil _⟩
  have column : [.word "id", .word "CHAR", .punctuation '(', .number, .punctuation ')',
      .word "PRIMARY", .word "KEY"] ∈ (TableElement.column "id" .primary).written :=
    ⟨_, ⟨_, ⟨_, ⟨_, rfl, by decide, rfl⟩, _, char, rfl⟩, _, ⟨_, ⟨_, by decide, rfl⟩, _,
      ⟨_, by decide, rfl⟩, rfl⟩, rfl⟩, _, nothing, rfl⟩
  have plain : ∀ text, [.word text] ∈ (IndexItem.column text).written :=
    fun text => ⟨_, .inl rfl, _, Language.nil_mem_kstar _, rfl⟩
  have items : [.punctuation '(', .word "code", .punctuation ',', .word "id", .punctuation ')'] ∈
      itemList [.column "code", .column "id"] :=
    ⟨_, ⟨_, rfl, _, ⟨_, ⟨_, plain "code", _, rfl, rfl⟩, _, plain "id", rfl⟩, rfl⟩, _, rfl, rfl⟩
  have key : [.word "KEY", .punctuation '(', .word "code", .punctuation ',', .word "id",
      .punctuation ')'] ∈ (TableElement.key (.index none [.column "code", .column "id"])).written :=
    ⟨_, ⟨_, .inr ⟨_, by decide, rfl⟩, _, rfl, rfl⟩, _, ⟨by decide, items⟩, rfl⟩
  have table : [.word "orders"] ∈ qualified "orders" :=
    ⟨[], Language.nil_mem_kstar _, _, ⟨_, rfl, by decide, rfl⟩, rfl⟩
  have elements : [.word "id", .word "CHAR", .punctuation '(', .number, .punctuation ')',
      .word "PRIMARY", .word "KEY", .punctuation ',', .word "KEY", .punctuation '(', .word "code",
      .punctuation ',', .word "id", .punctuation ')'] ∈ listed TableElement.written
        [.column "id" .primary, .key (.index none [.column "code", .column "id"])] :=
    ⟨_, ⟨_, column, _, rfl, rfl⟩, _, key, rfl⟩
  exact ⟨_, ⟨_, ⟨_, by decide, rfl⟩, _, ⟨_, by decide, rfl⟩, rfl⟩, _, ⟨_, ⟨_, ⟨_, .inr rfl, _,
    table, rfl⟩, _, ⟨_, ⟨_, rfl, _, elements, rfl⟩, _, rfl, rfl⟩, rfl⟩, [], List.not_mem_nil, rfl⟩,
      rfl⟩

/-- Each index yields its columns, in their places behind an expression too. -/
theorem scan_script_orders :
    scan ("CREATE UNIQUE INDEX ux ON app.users (lower(email), email c_ops DESC) WHERE live;".toList
        ++ "CREATE TABLE orders (id CHAR(8) PRIMARY KEY, KEY (code, id))".toList) "V1.sql" =
      [⟨"users", "email", "ux", "V1.sql", true, true, 1⟩,
        ⟨"orders", "id", "orders_pkey", "V1.sql", true, false, 0⟩,
        ⟨"orders", "code", "orders_code_id_idx", "V1.sql", false, false, 0⟩,
        ⟨"orders", "id", "orders_code_id_idx", "V1.sql", false, false, 1⟩] := by
  -- The only computation on the text is the reading of its tokens.
  have tokens : tokenize
      ("CREATE UNIQUE INDEX ux ON app.users (lower(email), email c_ops DESC) WHERE live;".toList
        ++ "CREATE TABLE orders (id CHAR(8) PRIMARY KEY, KEY (code, id))".toList) =
      emailIndexTokens ++ [.punctuation ';'] ++ (orderTableTokens ++ []) := by decide +kernel
  have written : emailIndexTokens ++ [.punctuation ';'] ++ (orderTableTokens ++ []) ∈
      script [emailIndex, orderTable] :=
    ⟨_, ⟨_, emailIndex_written, _, rfl, rfl⟩, _, ⟨_, orderTable_written, _, .inr rfl, rfl⟩, rfl⟩
  rw [scan_script written (tokens ▸ spells_tokenize _)]
  decide +kernel

end IndexStatement

end IndexAudit
