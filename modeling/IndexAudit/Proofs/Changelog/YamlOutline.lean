import IndexAudit.Proofs.Changelog.Outline

/-! What is declared by a changelog that is written as a YAML document. -/

namespace IndexAudit

namespace Outline

/-- A key of a mapping is looked up among the keys that have a value. -/
@[simp] theorem get?_record_cons (own key : String) (value? : Option YamlValue)
    (fields : List (String × Option YamlValue)) :
    (record ((own, value?) :: fields)).get? key =
      (if own = key then value? else none).or ((record fields).get? key) := by
  -- Only a key with a value makes an entry of the mapping.
  cases value? with
  | none => simp [record]
  | some value =>
    by_cases same : own = key
    · simp [record, YamlValue.get?, YamlValue.untagged, same]
    · simp [record, YamlValue.get?, YamlValue.untagged, same]

/-- A mapping without keys has no value under any key. -/
@[simp] theorem get?_record_nil (key : String) : (record []).get? key = none :=
  rfl

/-- A text is read as it is given. -/
@[simp] theorem bind_yamlText (text : Option String) :
    (yamlText text).bind YamlValue.scalarText? = text := by
  -- A text is a string, which is a text to every reader.
  cases text with
  | none => rfl
  | some text => rfl

/-- A truth value is read as it is meant, wherever it stands. -/
theorem flag_eq {value : YamlValue} {key : String} {flag : Option Flag}
    (found : value.get? key = yamlFlag flag) : value.flag key = holds flag := by
  rw [YamlValue.flag, found]
  -- A flag is a truth value or a text, and each is read as such.
  match flag with
  | none => rfl
  | some (.truth _) => rfl
  | some (.text _) => rfl

/-- The body of a column is found under its key, or is the item itself. -/
theorem columnBody (column : Column) :
    (column.toYaml.get? "column").getD column.toYaml = column.body := by
  unfold Column.toYaml
  split
  · simp
  · -- A body has no key of that name itself.
    simp [Column.body]

/-- The bodies of the columns of a change are those of the columns that it lists. -/
theorem columnBodies_eq {value : YamlValue} {columns : List Column}
    (found : value.get? "columns" = yamlColumns columns) :
    value.columnBodies = columns.map (·.body) := by
  -- The columns are found as a sequence, each under the key of its body.
  simp [YamlValue.columnBodies, found, yamlColumns, YamlValue.items?, YamlValue.untagged,
    columnBody]

/-- The constraints of a column are read as they are meant. -/
theorem constraints_toYaml (constraints : Constraints) :
    constraints.toYaml.constraints = constraints.meant := by
  -- The two truth values are read by their keys, and the names are texts as they are.
  have primary : constraints.toYaml.flag "primaryKey" = holds constraints.isPrimaryKey :=
    flag_eq (by simp [Constraints.toYaml])
  have unique : constraints.toYaml.flag "unique" = holds constraints.isUnique :=
    flag_eq (by simp [Constraints.toYaml])
  rw [YamlValue.constraints, Constraints.meant, primary, unique]
  simp [YamlValue.textAt?, Constraints.toYaml]

/-- The columns of a change are read as they are meant. -/
theorem changeColumns_eq {value : YamlValue} {columns : List Column}
    (found : value.get? "columns" = yamlColumns columns) :
    value.changeColumns = columns.filterMap (·.meant?) := by
  rw [YamlValue.changeColumns, columnBodies_eq found, List.filterMap_map]
  -- Each column is read by itself, and one without a name is left out on both sides.
  congr 1
  funext column
  cases given : column.name with
  | none => simp [Column.body, Column.meant?, YamlValue.textAt?, given]
  | some name =>
    simp [Column.body, Column.meant?, YamlValue.textAt?, given, Function.comp_def,
      constraints_toYaml]

/-- The keys that name no change, no reference and nothing that is undone. -/
def plainKeys : List String :=
  ["databaseChangeLog", "changeSet", "id", "author", "changes", "sql", "tableName", "indexName",
    "unique", "columns", "column", "name", "type", "constraints", "primaryKey", "primaryKeyName",
    "uniqueConstraintName", "columnNames", "constraintName", "file", "path",
    "relativeToChangelogFile"]

/-- What stands under a plain key is no item by itself. -/
theorem item?_plain {key : String} (plain : key ∈ plainKeys) (value : YamlValue) :
    YamlValue.item? key value = none := by
  simp only [plainKeys, List.mem_cons, List.not_mem_nil, or_false] at plain
  unfold YamlValue.item?
  -- The key is none of the names that the reader asks for.
  split <;> simp_all

/-- The items under plain keys of a mapping come in the order of the keys. -/
theorem changelogItems_record_cons {own : String} (plain : own ∈ plainKeys)
    (value? : Option YamlValue) (fields : List (String × Option YamlValue)) :
    (record ((own, value?) :: fields)).changelogItems =
      value?.toList.flatMap (·.changelogItems) ++ (record fields).changelogItems := by
  -- A key of the plain ones is neither a change nor `rollback`, so only its value has items.
  have kept : own ≠ "rollback" := by
    rintro rfl
    exact absurd plain (by decide)
  cases value? with
  | none => simp [record]
  | some value =>
    simp [record, YamlValue.changelogItems, YamlValue.itemsOfEntries, YamlValue.string?,
      YamlValue.untagged, item?_plain plain]

/-- A mapping without keys has no items. -/
@[simp] theorem changelogItems_record_nil : (record []).changelogItems = [] := by
  simp [record, YamlValue.changelogItems, YamlValue.itemsOfEntries]

/-- A text is an item of its own. -/
@[simp] theorem items_yamlText (text : Option String) :
    (yamlText text).toList.flatMap (·.changelogItems) = text.toList.map .text := by
  -- A string has one item, and what is not given has none.
  cases text with
  | none => rfl
  | some text => simp [yamlText, YamlValue.changelogItems]

/-- A truth value is an item if it is given in a text. -/
@[simp] theorem items_yamlFlag (flag : Option Flag) :
    (yamlFlag flag).toList.flatMap (·.changelogItems) = (wordsOfFlag flag).map .text := by
  -- Only a flag that is written as a text adds one.
  match flag with
  | none => rfl
  | some (.truth _) => simp [yamlFlag, wordsOfFlag, YamlValue.changelogItems]
  | some (.text _) => simp [yamlFlag, wordsOfFlag, YamlValue.changelogItems]

/-- Constraints are read as their texts. -/
theorem items_constraints (constraints : Constraints) :
    constraints.toYaml.changelogItems = constraints.words.map .text := by
  simp (disch := decide) [Constraints.toYaml, changelogItems_record_cons, Constraints.words]

/-- A column is read as its texts. -/
theorem items_column (column : Column) :
    column.toYaml.changelogItems = column.words.map .text := by
  have body : column.body.changelogItems = column.words.map .text := by
    cases given : column.constraints with
    | none => simp (disch := decide) [Column.body, changelogItems_record_cons, Column.words, given]
    | some held =>
      simp (disch := decide) [Column.body, changelogItems_record_cons, Column.words, given,
        items_constraints]
  -- With a key around it or not, the body has its texts as items.
  unfold Column.toYaml
  split
  · simp (disch := decide) [changelogItems_record_cons, body]
  · exact body

/-- The items of a sequence are those of its values. -/
theorem itemsOfSequence_eq (values : List YamlValue) :
    YamlValue.itemsOfSequence values = values.flatMap (·.changelogItems) := by
  -- By induction on the sequence, as items are gathered value by value.
  induction values with
  | nil => rfl
  | cons value values ih => rw [YamlValue.itemsOfSequence, ih, List.flatMap_cons]

/-- The columns of a change are read as their texts. -/
@[simp] theorem items_yamlColumns (columns : List Column) :
    (yamlColumns columns).toList.flatMap (·.changelogItems) =
      (columns.flatMap (·.words)).map .text := by
  -- The sequence is gone through column by column, each with its texts.
  simp [yamlColumns, YamlValue.changelogItems, itemsOfSequence_eq, List.flatMap_map, items_column,
    List.map_flatMap]

/-- A mapping with a change or a reference as its only key is read as that and what is inside. -/
theorem changelogItems_single {key : String} {value : YamlValue} {item? : Option ChangelogItem}
    (kept : key ≠ "rollback") (read : YamlValue.item? key value = item?) :
    (record [(key, some value)]).changelogItems = item?.toList ++ value.changelogItems := by
  -- The key is none that is undone, so the item is read and then what is inside.
  simp [record, YamlValue.changelogItems, YamlValue.itemsOfEntries, YamlValue.string?,
    YamlValue.untagged, read]

/-- A change to a table is read where the table is named. -/
theorem yamlChange?_eq {value : YamlValue} {table : Option String}
    (named : value.get? "tableName" = yamlText table) (make : String → Option Change) :
    value.change? make = table.bind fun table => (make table).map .change := by
  rw [YamlValue.change?, YamlValue.textAt?, named, bind_yamlText]
  -- Without a table there is no change, and with one it is made as it is.
  cases table with
  | none => rfl
  | some table => cases made : make table <;> simp [made]

/-- A change that creates an index is read as it is meant, and then its texts. -/
theorem items_createIndex (table name : Option String) (isUnique : Option Flag)
    (columns : List Column) :
    (toYaml (.createIndex table name isUnique columns)).changelogItems =
      items (.createIndex table name isUnique columns) ++
        (words (.createIndex table name isUnique columns)).map .text := by
  rw [toYaml]
  generalize held : record [("tableName", yamlText table), ("indexName", yamlText name),
    ("unique", yamlFlag isUnique), ("columns", yamlColumns columns)] = value
  have inside : value.changelogItems =
      (words (.createIndex table name isUnique columns)).map .text := by
    rw [← held]
    simp (disch := decide) [changelogItems_record_cons, words]
  -- The keys are looked up one after the other.
  have named : value.get? "tableName" = yamlText table := by simp [← held]
  have unique : value.flag "unique" = holds isUnique := flag_eq (by simp [← held])
  have bodies : value.columnBodies = columns.map (·.body) := columnBodies_eq (by simp [← held])
  have read : YamlValue.item? "createIndex" value = table.map fun table =>
      .change (.createIndex table name (columns.map (·.name)) (holds isUnique)) := by
    rw [YamlValue.item?, yamlChange?_eq named, unique, bodies]
    cases table with
    | none => rfl
    | some table => simp [← held, YamlValue.textAt?, Column.body, Function.comp_def]
  rw [changelogItems_single (by decide) read, inside, items]

/-- A change that adds a key is read as it is meant, and then its texts. -/
theorem items_addKey (isPrimary : Bool) (table columnNames name : Option String) :
    (toYaml (.addKey isPrimary table columnNames name)).changelogItems =
      items (.addKey isPrimary table columnNames name) ++
        (words (.addKey isPrimary table columnNames name)).map .text := by
  rw [toYaml]
  generalize held : record [("tableName", yamlText table), ("columnNames", yamlText columnNames),
    ("constraintName", yamlText name)] = value
  have inside : value.changelogItems =
      (words (.addKey isPrimary table columnNames name)).map .text := by
    rw [← held]
    simp (disch := decide) [changelogItems_record_cons, words]
  have named : value.get? "tableName" = yamlText table := by simp [← held]
  have listed : value.textAt? "columnNames" = columnNames := by simp [← held, YamlValue.textAt?]
  have called : value.textAt? "constraintName" = name := by simp [← held, YamlValue.textAt?]
  -- The two kinds of key are read alike.
  have read : YamlValue.item? (keyTag isPrimary) value = table.bind fun table =>
      columnNames.map fun columnNames => .change (.addKey isPrimary table columnNames name) := by
    cases isPrimary <;>
      simp [keyTag, YamlValue.item?, yamlChange?_eq named, listed, called, Function.comp_def]
  rw [changelogItems_single (by cases isPrimary <;> decide) read, inside, items]

/-- A change that lists new columns is read as it is meant, and then its texts. -/
theorem items_newColumns {key : String} {make : String → List ChangeColumn → Change}
    (kept : key ≠ "rollback") (reads : ∀ value, YamlValue.item? key value =
      value.change? fun table => some (make table value.changeColumns))
    (table : Option String) (columns : List Column) :
    (record [(key, some (record [("tableName", yamlText table),
      ("columns", yamlColumns columns)]))]).changelogItems =
      (table.map fun table =>
        ChangelogItem.change (make table (columns.filterMap (·.meant?)))).toList ++
        (table.toList ++ columns.flatMap (·.words)).map .text := by
  generalize held : record [("tableName", yamlText table), ("columns", yamlColumns columns)] = value
  -- The texts of the columns are those of the record, as none of its keys is dropped.
  have inside : value.changelogItems =
      (table.toList ++ columns.flatMap (·.words)).map .text := by
    rw [← held]
    simp (disch := decide) [changelogItems_record_cons]
  have named : value.get? "tableName" = yamlText table := by simp [← held]
  -- Without a table there is no change.
  have read : YamlValue.item? key value = table.map fun table =>
      .change (make table (columns.filterMap (·.meant?))) := by
    rw [reads, yamlChange?_eq named, @changeColumns_eq _ columns (by simp [← held])]
    cases table <;> rfl
  rw [changelogItems_single kept read, inside]

/-- A reference is read as it is meant, and then its texts. -/
theorem items_reference (kind : ReferenceKind) (path : Option String)
    (isRelative : Option Flag) :
    (toYaml (.reference kind path isRelative)).changelogItems =
      items (.reference kind path isRelative) ++
        (words (.reference kind path isRelative)).map .text := by
  rw [toYaml]
  generalize held : record [(pathTag kind, yamlText path),
    ("relativeToChangelogFile", yamlFlag isRelative)] = value
  have plain : pathTag kind ∈ plainKeys := by cases kind <;> decide
  -- The path and the flag are all the texts there are, and the flag is none.
  have inside : value.changelogItems =
      (words (.reference kind path isRelative)).map .text := by
    rw [← held, changelogItems_record_cons plain]
    simp (disch := decide) [changelogItems_record_cons, words]
  have relative : value.flag "relativeToChangelogFile" = holds isRelative :=
    flag_eq (by cases kind <;> simp [← held, pathTag])
  have given : value.textAt? (pathTag kind) = path := by
    cases kind <;> simp [← held, YamlValue.textAt?, pathTag]
  have read : YamlValue.item? (referenceTag kind) value = path.map fun path =>
      .reference ⟨kind, path, holds isRelative⟩ := by
    cases kind <;>
      simp only [referenceTag, YamlValue.item?, YamlValue.reference?, pathTag, relative]
        at given ⊢ <;>
      rw [given] <;> cases path <;> rfl
  rw [changelogItems_single (by cases kind <;> decide) read, inside, items]

section Declared

variable {file : String}

mutual

/-- An entry in YAML declares what it means, unless a text of it is SQL by chance. -/
theorem ofItems_toYaml : ∀ entry : Outline,
    (∀ word ∈ entry.words, IndexStatement.scan word.toList file = []) →
      Scanned.ofItems file entry.toYaml.changelogItems = Scanned.ofItems file entry.items
  | .createIndex table name isUnique columns, silent => by
    rw [items_createIndex, ofItems_behind silent]
  | .addKey isPrimary table columnNames name, silent => by
    rw [items_addKey, ofItems_behind silent]
  | .createTable table columns, silent => by
    rw [words] at silent
    rw [toYaml, items_newColumns (by decide) (fun _ => rfl), ofItems_behind silent, items]
  | .addColumn table columns, silent => by
    rw [words] at silent
    rw [toYaml, items_newColumns (by decide) (fun _ => rfl), ofItems_behind silent, items]
  | .sql body, _ => by
    rw [toYaml]
    simp (disch := decide) [changelogItems_record_cons, YamlValue.changelogItems, items]
  | .reference kind path isRelative, silent => by
    rw [items_reference, ofItems_behind silent]
  | .rollback body entries, _ => by
    rw [toYaml, items]
    rfl
  | .changeSet id author entries, silent => by
    rw [words, List.forall_mem_append] at silent
    have inside : (toYaml (.changeSet id author entries)).changelogItems =
        (id.toList ++ author.toList).map .text ++
          YamlValue.itemsOfSequence (toYamlList entries) := by
      simp (disch := decide) [toYaml, changelogItems_record_cons, YamlValue.changelogItems]
    -- The texts of the change set itself come first, and then its entries.
    rw [inside, items]
    exact @ofItems_append _ _ [] _ _ (ofItems_silent silent.1) (ofItems_toYamlList entries silent.2)

/-- The entries of a list in YAML declare what they mean. -/
theorem ofItems_toYamlList : ∀ entries : List Outline,
    (∀ word ∈ wordsOf entries, IndexStatement.scan word.toList file = []) →
      Scanned.ofItems file (YamlValue.itemsOfSequence (toYamlList entries)) =
        Scanned.ofItems file (itemsOf entries)
  -- By recursion on the entries: the texts of each one define no index, as they are among all.
  | [], _ => by rw [toYamlList, itemsOf, YamlValue.itemsOfSequence]
  | entry :: entries, silent => by
    rw [wordsOf, List.forall_mem_append] at silent
    rw [toYamlList, itemsOf, YamlValue.itemsOfSequence]
    exact ofItems_append (ofItems_toYaml entry silent.1) (ofItems_toYamlList entries silent.2)

end

end Declared

end Outline

end IndexAudit
