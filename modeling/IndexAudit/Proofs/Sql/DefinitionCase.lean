import IndexAudit.Proofs.Sql.Comment
import IndexAudit.Proofs.Sql.LetterCase

/-!
Index definitions in different letter cases.

Every reader of a statement asks for keywords in any letter case, so it goes the same way through
the statement in lower case. The names that it takes on its way are lowered, and so are those that
it puts together from them.
-/

namespace IndexAudit

/-- An indexed column with the ASCII letters of its names in lower case. -/
def IndexedColumn.lowered (column : IndexedColumn) : IndexedColumn :=
  { column with
    table := column.table.toLower
    column := column.column.toLower
    index := column.index.toLower }

/-! Names that are put together. -/

/-- Texts behind each other are lowered one by one. -/
theorem toLower_append (first second : String) :
    (first ++ second).toLower = first.toLower ++ second.toLower := by
  -- Strings are lowered character by character.
  rw [← String.toList_inj]
  simp [toList_toLower]

/-- A text without capital letters is in lower case. -/
theorem toLower_eq_of_forall {text : String} (plain : ∀ c ∈ text.toList, c.toLower = c) :
    text.toLower = text := by
  -- Each character is its own lower-case form.
  rw [← String.toList_inj, toList_toLower]
  rw [List.map_congr_left plain, List.map_id']

/-- Texts with a separator between them are lowered one by one. -/
theorem toLower_intercalate {separator : String} (plain : separator.toLower = separator)
    (texts : List String) :
    (separator.intercalate texts).toLower = separator.intercalate (texts.map String.toLower) := by
  induction texts with
  | nil => exact String.map_eq_empty.mpr rfl
  | cons first rest ih =>
    cases rest with
    | nil => simp
    | cons second rest =>
      -- The first text and the separator are lowered, and the others by induction.
      rw [String.intercalate_cons_cons, toLower_append, toLower_append, plain, ih]
      simp [String.intercalate_cons_cons]

namespace IndexDefinition

/-- An index with the ASCII letters of its names in lower case. -/
def lowered (definition : IndexDefinition) : IndexDefinition :=
  { definition with
    name := definition.name.toLower
    table := definition.table.toLower
    columns := definition.columns.map (Option.map String.toLower) }

/-- The columns of an index from a place on are lowered with it. -/
theorem columnsFrom_lowered (definition : IndexDefinition) (file : String) (place : Nat)
    (columns : List (Option String)) :
    definition.lowered.columnsFrom file place (columns.map (Option.map String.toLower)) =
      (definition.columnsFrom file place columns).map IndexedColumn.lowered := by
  induction columns generalizing place with
  | nil => rfl
  | cons column? columns ih =>
    -- A place without a column counts, but yields none.
    cases column? with
    | none => simp [columnsFrom, ih]
    | some column =>
      simp only [List.map_cons, Option.map_some, columnsFrom, ih]
      rfl

/-- The columns of an index are lowered with it. -/
theorem indexedColumns_lowered (definition : IndexDefinition) (file : String) :
    definition.lowered.indexedColumns file =
      (definition.indexedColumns file).map IndexedColumn.lowered :=
  definition.columnsFrom_lowered file 0 definition.columns

section Names

variable (table column : String) (columns : List (Option String))

/-- The columns that are no expressions are lowered. -/
theorem filterMap_lowered :
    (columns.map (Option.map String.toLower)).filterMap id =
      (columns.filterMap id).map String.toLower := by
  simp [List.filterMap_map, List.map_filterMap]

/-- The name of an index that is given none is lowered with its table and columns. -/
theorem generatedName_lowered {ending : String} (plain : ending.toLower = ending) :
    generatedName table.toLower (columns.map (Option.map String.toLower)) ending =
      (generatedName table columns ending).toLower := by
  -- The name is put together from its parts with underscores, which have no case.
  rw [generatedName, generatedName, toLower_intercalate (toLower_eq_of_forall (by decide)),
    filterMap_lowered]
  simp [plain]

/-- The name of a primary key that is given none is lowered with its table. -/
theorem primaryKeyName_lowered : primaryKeyName table.toLower = (primaryKeyName table).toLower := by
  -- The ending of the name has no capitals.
  have ending : "_pkey".toLower = "_pkey" := toLower_eq_of_forall (by decide)
  rw [primaryKeyName, primaryKeyName, toLower_append, ending]

/-- The name of a unique column is lowered with the column and its table. -/
theorem uniqueColumnName_lowered :
    uniqueColumnName table.toLower column.toLower = (uniqueColumnName table column).toLower := by
  -- The marks of the name have no capitals.
  have gap : "_".toLower = "_" := toLower_eq_of_forall (by decide)
  have ending : "_key".toLower = "_key" := toLower_eq_of_forall (by decide)
  simp only [uniqueColumnName, toLower_append, gap, ending]

end Names

end IndexDefinition

/-! Lists of tokens that are divided. -/

/-- A list is divided in the same places if nothing else is made a separator. -/
theorem splitOn_map {α β : Type} [BEq α] [LawfulBEq α] [BEq β] [LawfulBEq β] {f : α → β} {a : α}
    {b : β} (same : ∀ x, f x = b ↔ x = a) (items : List α) :
    (items.map f).splitOn b = (items.splitOn a).map (List.map f) := by
  induction items with
  | nil => rfl
  | cons x rest ih =>
    -- The first element ends a part just where its image does, or else extends the first part.
    have extend : ∀ parts : List (List α), (parts.map (List.map f)).modifyHead (f x :: ·) =
        (parts.modifyHead (x :: ·)).map (List.map f) := by
      intro parts
      cases parts <;> rfl
    have alike : (f x == b) = (x == a) := Bool.eq_iff_iff.mpr (by simpa using same x)
    simp only [List.map_cons, List.splitOn_cons_eq_if_modifyHead, ih, extend, alike]
    split <;> rfl

/-- A bracket is closed in the same place if each element is replaced by one that nests alike. -/
theorem Nest.closeIndex_map {α β : Type} {nest : α → Nest} {other : β → Nest} {f : α → β}
    (same : ∀ x, other (f x) = nest x) (depth : Nat) (items : List α) :
    closeIndex other depth (items.map f) = closeIndex nest depth items := by
  -- Only what nests is looked at, and the images nest alike.
  induction items generalizing depth with
  | nil => rfl
  | cons x rest ih => simp only [List.map_cons, closeIndex, same, ih]

namespace SqlToken

/-- The statements of a list of tokens are lowered with it. -/
theorem statements_lowered (tokens : List SqlToken) :
    statements (tokens.map lowered) = (statements tokens).map (List.map lowered) := by
  -- A semicolon is one in either case, and an empty part stays empty.
  have ending (token : SqlToken) : token.lowered = .punctuation ';' ↔ token = .punctuation ';' :=
    lowered_eq_iff token rfl
  rw [statements, statements, splitOn_map ending, List.filter_map]
  congr 2
  funext part
  simp

end SqlToken

namespace IndexStatement

open SqlToken

variable (tokens : List SqlToken)

/-- The words for what is there already are passed over in either case. -/
theorem skipIfNotExists_lowered :
    skipIfNotExists (tokens.map lowered) = (skipIfNotExists tokens).map lowered := by
  -- Which words stand there, keywords tell.
  simp only [skipIfNotExists, ← List.map_drop, startsWith_lowered]
  split <;> rfl

/-- A name with its schemas is read in either case. -/
theorem readQualified_lowered :
    readQualified (tokens.map lowered) =
      (readQualified tokens).map (Option.map String.toLower) (List.map lowered) := by
  -- Letter case decides neither what a name is nor whether a dot follows it.
  fun_induction readQualified tokens with
  | case1 => rfl
  | case2 token rest nameless =>
    have lower : token.lowered.ident? = none := by simp [nameless]
    rw [List.map_cons, readQualified.eq_def]
    simp only [lower]
    rfl
  | case3 token name after named ih =>
    have lower : token.lowered.ident? = some name.toLower := by simp [named]
    exact (readQualified_dot lower _).trans ih
  | case4 token rest name named noDot =>
    have lower : token.lowered.ident? = some name.toLower := by simp [named]
    have ends : (rest.map lowered).head? ≠ some (.punctuation '.') := by
      rw [Ne, head?_lowered _ rfl]
      intro first
      obtain ⟨after, rfl⟩ := List.head?_eq_some_iff.mp first
      exact noDot after rfl
    exact readQualified_last lower ends

/-- What stands in brackets is lowered with them. -/
theorem readBracketed?_lowered :
    readBracketed? (tokens.map lowered) =
      (readBracketed? tokens).map (Prod.map (List.map lowered) (List.map lowered)) := by
  -- The bracket closes in the same place, as marks are not lowered.
  have closed : closeIndex (tokens.map lowered) = closeIndex tokens :=
    Nest.closeIndex_map nest_lowered 0 tokens
  have opens : (tokens.map lowered).head? = some (.punctuation '(') ↔
      tokens.head? = some (.punctuation '(') := head?_lowered tokens rfl
  simp only [readBracketed?, closed, opens]
  split
  · simp only [Option.map_map, Function.comp_def, Prod.map, ← List.map_drop, ← List.map_take]
  · rfl

/-- A modifier is one in either case. -/
theorem isModifier_lowered (token : SqlToken) : isModifier token.lowered = isModifier token := by
  cases token <;> simp [isModifier, lowered, toList_toLower, Function.comp_def]

/-- The column of an item is lowered with it. -/
theorem itemColumn?_lowered :
    itemColumn? (tokens.map lowered) = (itemColumn? tokens).map String.toLower := by
  -- The column is the first name, and what may follow it are keywords.
  cases tokens with
  | nil => rfl
  | cons first rest =>
    have modified : (rest.map lowered).all isModifier = rest.all isModifier := by
      simp [Function.comp_def, isModifier_lowered]
    simp only [List.map_cons, itemColumn?, modified, ident?_lowered]
    split <;> rfl

/-- The columns of an index are lowered with its items. -/
theorem indexColumns_lowered :
    indexColumns (tokens.map lowered) = (indexColumns tokens).map (Option.map String.toLower) := by
  -- Items are divided at the same commas, and each is read by itself.
  simp only [indexColumns, splitCommas_lowered, List.map_map]
  congr 1
  funext item
  exact itemColumn?_lowered item

/-- The name of a created index, if one is given, is lowered with it. -/
theorem readIndexName_lowered :
    (if startsWith "on" tokens then (none, tokens.map lowered)
      else readQualified (tokens.map lowered)) =
      (if startsWith "on" tokens then (none, tokens) else readQualified tokens).map
        (Option.map String.toLower) (List.map lowered) := by
  -- A name is read just if the keyword does not come first.
  split
  · rfl
  · exact readQualified_lowered tokens

/-- The index that a statement creates is lowered with it. -/
theorem ofCreateIndex_lowered (isUnique : Bool) :
    ofCreateIndex isUnique (tokens.map lowered) =
      (ofCreateIndex isUnique tokens).map IndexDefinition.lowered := by
  simp only [ofCreateIndex, skip_lowered, skipIfNotExists_lowered, startsWith_lowered,
    readIndexName_lowered]
  generalize (if startsWith "on" (skipIfNotExists (skip "concurrently" tokens)) then
      (none, skipIfNotExists (skip "concurrently" tokens))
    else readQualified (skipIfNotExists (skip "concurrently" tokens))) = front
  obtain ⟨name, named⟩ := front
  simp only [Prod.map, startsWith_lowered, ← List.map_drop, skip_lowered, readQualified_lowered]
  split
  · rfl
  obtain ⟨table?, behind⟩ := readQualified (skip "only" (named.drop 1))
  cases table? with
  | none => rfl
  | some table =>
    simp only [Option.map_some, Option.bind_eq_bind, Option.bind_some,
      ← apply_ite (List.map lowered), readBracketed?_lowered]
    cases readBracketed? (if startsWith "using" behind then behind.drop 2 else behind) with
    | none => rfl
    | some parts =>
      obtain ⟨list, after⟩ := parts
      -- The condition of a partial index is looked for in what is left, in either case.
      have partly : (after.map lowered).any (·.isKeyword "where") =
          after.any (·.isKeyword "where") := by simp [Function.comp_def]
      have ending : "idx".toLower = "idx" := toLower_eq_of_forall (by decide)
      simp only [Option.map_some, Option.bind_some, Prod.map, IndexDefinition.lowered, partly,
        indexColumns_lowered, IndexDefinition.generatedName_lowered _ _ ending]
      cases name <;> rfl

/-- Whether an index or a key lists columns is told in either case. -/
theorem listsColumns_lowered : listsColumns (tokens.map lowered) = listsColumns tokens := by
  -- A name may stand in front of the brackets, and each item must not be empty.
  have named : (tokens.map lowered).head?.any (·.ident?.isSome) =
      tokens.head?.any (·.ident?.isSome) := by
    cases tokens <;> simp
  simp only [listsColumns, named, ← List.map_drop, ← apply_ite (List.map lowered),
    readBracketed?_lowered]
  cases readBracketed? (if tokens.head?.any (·.ident?.isSome) then tokens.drop 1 else tokens) with
  | none => rfl
  | some parts =>
    simp only [Option.map_some, Prod.map, splitCommas_lowered, List.all_map]
    congr 1
    funext item
    cases item <;> simp

/-- The kind of a key is told in either case. -/
theorem readKind?_lowered :
    readKind? (tokens.map lowered) =
      (readKind? tokens).map (Prod.map id (List.map lowered)) := by
  -- The kind is told by keywords at the front and by whether columns are listed.
  simp only [readKind?, startsWith_lowered, ← List.map_drop, listsColumns_lowered, skip_lowered]
  split
  · split <;> rfl
  split
  · split <;> rfl
  split
  · split <;> rfl
  · rfl

/-- The name of a key that is given none is lowered with its table and columns. -/
theorem defaultName_lowered (kind : KeyKind) (table : String) (columns : List (Option String)) :
    defaultName kind table.toLower (columns.map (Option.map String.toLower)) =
      (defaultName kind table columns).toLower := by
  -- Only the ending of the name differs from kind to kind.
  cases kind with
  | primary => exact IndexDefinition.primaryKeyName_lowered table
  | unique =>
    exact IndexDefinition.generatedName_lowered table columns (toLower_eq_of_forall (by decide))
  | index =>
    exact IndexDefinition.generatedName_lowered table columns (toLower_eq_of_forall (by decide))

/-- The key that an element of a table declares is lowered with it. -/
theorem ofTableElement_lowered (table : String) :
    ofTableElement table.toLower (tokens.map lowered) =
      (ofTableElement table tokens).map IndexDefinition.lowered := by
  have name (list : List SqlToken) : (list.map lowered).head?.bind (·.ident?) =
      (list.head?.bind (·.ident?)).map String.toLower := by
    cases list <;> simp
  have given (condition : Prop) [Decidable condition] (name : Option String) :
      (if condition then name.map String.toLower else none) =
        (if condition then name else none).map String.toLower := by
    split <;> rfl
  simp only [ofTableElement, startsWith_lowered, ← List.map_drop, ← apply_ite (List.map lowered),
    name, given, readKind?_lowered]
  generalize (if startsWith "constraint" tokens then (tokens.drop 1).head?.bind (·.ident?)
    else none) = constraint
  -- Whether an element is a key, and of which kind, is told by keywords.
  cases readKind? (if startsWith "constraint" tokens then tokens.drop 2 else tokens) with
  | none => rfl
  | some read =>
    obtain ⟨kind, rest⟩ := read
    have opens : (rest.map lowered).head? = some (.punctuation '(') ↔
        rest.head? = some (.punctuation '(') := head?_lowered rest rfl
    simp only [Option.map_some, Option.bind_eq_bind, Option.bind_some, Prod.map, id_eq, ne_eq,
      opens, ← List.map_drop, ← apply_ite (List.map lowered), name, given, readBracketed?_lowered]
    generalize (if ¬ rest.head? = some (.punctuation '(') then rest.head?.bind (·.ident?)
      else none) = inline
    cases readBracketed? (if ¬ rest.head? = some (.punctuation '(') then rest.drop 1
        else rest) with
    | none => rfl
    | some parts =>
      simp only [Option.map_some, Option.bind_some, Prod.map, IndexDefinition.lowered,
        indexColumns_lowered, defaultName_lowered]
      cases constraint <;> cases inline <;> rfl

/-- Two keywords stand next to each other in either case. -/
theorem hasPair_lowered (first second : String) :
    hasPair first second (tokens.map lowered) = hasPair first second tokens := by
  -- Both words are keywords, so at each place the answer is the same.
  induction tokens with
  | nil => rfl
  | cons token rest ih => simp [hasPair, ih]

/-- The key that a column declares on itself is lowered with it. -/
theorem ofColumn_lowered (table : String) :
    ofColumn table.toLower (tokens.map lowered) =
      (ofColumn table tokens).map IndexDefinition.lowered := by
  have unique : (tokens.map lowered).any (·.isKeyword "unique") =
      tokens.any (·.isKeyword "unique") := by simp [Function.comp_def]
  simp only [ofColumn, hasPair_lowered, unique, IndexDefinition.primaryKeyName_lowered]
  cases tokens with
  | nil => rfl
  | cons token rest =>
    simp only [List.map_cons, List.head?_cons, Option.bind_eq_bind, Option.bind_some,
      ident?_lowered]
    cases token.ident? with
    | none => rfl
    | some column =>
      simp only [Option.map_some, Option.bind_some, IndexDefinition.uniqueColumnName_lowered]
      -- The primary key goes before the unique one, in either case.
      split
      · rfl
      split
      · rfl
      · rfl

/-- The indexes of a created table are lowered with it. -/
theorem ofCreateTable_lowered :
    ofCreateTable (tokens.map lowered) =
      (ofCreateTable tokens).map IndexDefinition.lowered := by
  simp only [ofCreateTable, skipIfNotExists_lowered, readQualified_lowered]
  obtain ⟨table?, opening⟩ := readQualified (skipIfNotExists tokens)
  simp only [Prod.map, readBracketed?_lowered]
  cases table? with
  | none => rfl
  | some table =>
    cases readBracketed? opening with
    | none => rfl
    | some parts =>
      simp only [Option.map_some, Prod.map, splitCommas_lowered, List.filterMap_map,
        List.map_filterMap]
      -- Each element is lowered on its own, as commas are left where they are.
      congr 1
      funext element
      simp only [Function.comp_apply, ofTableElement_lowered, ofColumn_lowered]
      cases ofTableElement table element <;> rfl

/-- The keys of an altered table are lowered with it. -/
theorem ofAlterTable_lowered :
    ofAlterTable (tokens.map lowered) = (ofAlterTable tokens).map IndexDefinition.lowered := by
  simp only [ofAlterTable, skip_lowered, startsWith_lowered, ← List.map_drop,
    ← apply_ite (List.map lowered), readQualified_lowered]
  generalize readQualified (if startsWith "if" (skip "only" tokens) then
    skip "exists" ((skip "only" tokens).drop 1) else skip "only" tokens) = read
  obtain ⟨table?, actions⟩ := read
  cases table? with
  | none => rfl
  | some table =>
    simp only [Prod.map, Option.map_some, splitCommas_lowered, List.filterMap_map,
      List.map_filterMap]
    -- Each action is lowered on its own.
    congr 1
    funext action
    simp only [Function.comp_apply, startsWith_lowered, ← List.map_drop, ofTableElement_lowered]
    split <;> rfl

/-- The indexes that a statement defines are lowered with it. -/
theorem definitions_lowered :
    definitions (tokens.map lowered) = (definitions tokens).map IndexDefinition.lowered := by
  -- Which statement it is, keywords tell; what it defines is lowered with its tokens.
  simp only [definitions, startsWith_lowered, ← List.map_drop, skip_lowered,
    ofCreateIndex_lowered, ofCreateTable_lowered, ofAlterTable_lowered]
  split
  · split
    · cases ofCreateIndex (startsWith "unique" (tokens.drop 1))
        ((skip "unique" (tokens.drop 1)).drop 1) <;> rfl
    split
    · rfl
    · rfl
  split
  · rfl
  · rfl

/--
The columns that a text in lower case indexes are those that the text indexes, with the names of
tables, columns and indexes in lower case.

Nothing else depends on the case of ASCII letters: neither the order and the places of the columns
nor whether an index is unique or partial.
-/
theorem scan_toLower (text : List Char) (file : String) :
    scan (text.map Char.toLower) file = (scan text file).map IndexedColumn.lowered := by
  -- Each stage of the scan commutes with lowering, from tokens to indexed columns.
  simp only [scan_eq, tokenize_toLower, statements_lowered, List.flatMap_map, List.map_flatMap,
    definitions_lowered, IndexDefinition.indexedColumns_lowered]

end IndexStatement

end IndexAudit
