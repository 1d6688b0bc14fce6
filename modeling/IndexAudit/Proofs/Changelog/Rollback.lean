import IndexAudit.Changelog.OfXml
import IndexAudit.Changelog.OfYaml
import IndexAudit.Proofs.Sql.Comment

/-!
What is undone never counts, in whatever format a changelog is written.

Two documents that differ only in what stands under `rollback` come down to the same items. In SQL
what is undone stands in comments.
-/

namespace IndexAudit

namespace YamlValue

mutual

/-- A value without what stands under `rollback`, at any depth. -/
def eraseRollback : YamlValue → YamlValue
  | .sequence items => .sequence (eraseRollbackItems items)
  | .mapping entries => .mapping (eraseRollbackEntries entries)
  | .tagged tag value => .tagged tag (eraseRollback value)
  | value => value

/-- The values of a sequence without what stands under `rollback`. -/
def eraseRollbackItems : List YamlValue → List YamlValue
  | [] => []
  | value :: rest => eraseRollback value :: eraseRollbackItems rest

/-- The entries of a mapping without what stands under `rollback`; that key itself stays. -/
def eraseRollbackEntries : List (YamlValue × YamlValue) → List (YamlValue × YamlValue)
  | [] => []
  | (key, value) :: rest =>
    let kept := if key.string? = some "rollback" then .null else eraseRollback value
    (eraseRollback key, kept) :: eraseRollbackEntries rest

end

/-! The parts of a value that the changes ask for are never under `rollback`. -/

/-- Tags around a value stay. -/
theorem untagged_eraseRollback (value : YamlValue) :
    value.eraseRollback.untagged = value.untagged.eraseRollback := by
  -- The induction goes through the tags, and stops at the value inside them.
  induction value using untagged.induct with
  | case1 tag value ih => rw [eraseRollback, untagged, untagged, ih]
  | case2 value noTag =>
    cases value with
    | tagged tag value => exact absurd rfl (noTag tag value)
    | _ => simp [eraseRollback, untagged]

/-- A string stays. -/
@[simp] theorem string?_eraseRollback (value : YamlValue) :
    value.eraseRollback.string? = value.string? := by
  -- Behind its tags the value is the same string as before, or still none.
  unfold string?
  rw [untagged_eraseRollback]
  cases value.untagged <;> simp [eraseRollback]

/-- The text of a scalar stays. -/
@[simp] theorem scalarText?_eraseRollback (value : YamlValue) :
    value.eraseRollback.scalarText? = value.scalarText? := by
  -- Only a list or a mapping can change, and neither is a scalar.
  cases value <;> simp [eraseRollback, scalarText?]

/-- The items of a sequence stay in their places. -/
theorem eraseRollbackItems_eq (items : List YamlValue) :
    eraseRollbackItems items = items.map eraseRollback := by
  -- By induction on the sequence, as erasing goes from item to item.
  induction items with
  | nil => rfl
  | cons value rest ih => rw [eraseRollbackItems, ih, List.map_cons]

/-- The items of a sequence are those that there were. -/
theorem items?_eraseRollback (value : YamlValue) :
    value.eraseRollback.items? = value.items?.map fun items => items.map eraseRollback := by
  -- Only a sequence has items, and it keeps each of them.
  unfold items?
  rw [untagged_eraseRollback]
  cases value.untagged <;> simp [eraseRollback, eraseRollbackItems_eq]

/-- A mapping has the same values under all other keys. -/
theorem find?_eraseRollbackEntries {key : String} (kept : key ≠ "rollback")
    (entries : List (YamlValue × YamlValue)) :
    get? (.mapping (eraseRollbackEntries entries)) key =
      (get? (.mapping entries) key).map eraseRollback := by
  simp only [get?, untagged]
  induction entries with
  | nil => rfl
  | cons entry rest ih =>
    obtain ⟨own, value⟩ := entry
    rw [eraseRollbackEntries]
    cases own with
    | string text =>
      by_cases same : text = key
      · -- The entry that is found, whose key is another one than `rollback`.
        subst same
        simp [eraseRollback, string?, untagged, kept]
      · simpa [eraseRollback, same] using ih
    | _ => simpa [eraseRollback] using ih

/-- What stands under another key is that without what is undone inside it. -/
theorem get?_eraseRollback {key : String} (kept : key ≠ "rollback") (value : YamlValue) :
    value.eraseRollback.get? key = (value.get? key).map eraseRollback := by
  -- Only a mapping has keys, and of those only the one that is undone is left out.
  have same := fun entries => find?_eraseRollbackEntries kept entries
  simp only [get?, untagged] at same
  unfold get?
  rw [untagged_eraseRollback]
  cases value.untagged <;> simp [eraseRollback, same]

/-- The text under another key stays. -/
theorem textAt?_eraseRollback {key : String} (kept : key ≠ "rollback") (value : YamlValue) :
    value.eraseRollback.textAt? key = value.textAt? key := by
  -- The text under a key is that of its value, and this one stays.
  rw [textAt?, textAt?, get?_eraseRollback kept]
  cases value.get? key <;> simp

/-- A truth value under another key stays. -/
theorem flag_eraseRollback {key : String} (kept : key ≠ "rollback") (value : YamlValue) :
    value.eraseRollback.flag key = value.flag key := by
  rw [flag, flag, get?_eraseRollback kept]
  -- A truth value has nothing inside that could be undone.
  cases value.get? key with
  | none => rfl
  | some found => cases found <;> simp [eraseRollback]

/-- The bodies of the columns of a change are those that there were. -/
theorem columnBodies_eraseRollback (change : YamlValue) :
    change.eraseRollback.columnBodies = change.columnBodies.map eraseRollback := by
  -- The key of a column is not the one that is erased, so an item still holds its column.
  have body (item : YamlValue) : (item.eraseRollback.get? "column").getD item.eraseRollback =
      ((item.get? "column").getD item).eraseRollback := by
    rw [get?_eraseRollback (by decide)]
    cases item.get? "column" <;> rfl
  rw [columnBodies, columnBodies, get?_eraseRollback (by decide)]
  cases change.get? "columns" with
  | none => rfl
  | some columns =>
    simp only [Option.map_some, Option.bind_some, items?_eraseRollback]
    cases columns.items? <;> simp [body]

/-- The constraints of a column stay. -/
theorem constraints_eraseRollback (value : YamlValue) :
    value.eraseRollback.constraints = value.constraints := by
  simp (disch := decide) [constraints, flag_eraseRollback, textAt?_eraseRollback]

/-- The columns of a change stay. -/
theorem changeColumns_eraseRollback (change : YamlValue) :
    change.eraseRollback.changeColumns = change.changeColumns := by
  -- The bodies of the columns stay in number and order, and of each the same fields are read.
  rw [changeColumns, changeColumns, columnBodies_eraseRollback, List.filterMap_map]
  congr 1
  funext body
  simp (disch := decide) [textAt?_eraseRollback, get?_eraseRollback, Function.comp_def,
    constraints_eraseRollback]

/-- The change or the reference that a value is stays. -/
theorem item?_eraseRollback (key : String) (value : YamlValue) :
    item? key value.eraseRollback = item? key value := by
  -- Every key that a change or a reference looks up is another one than `rollback`.
  unfold item?
  split <;>
    simp (disch := decide) [change?, reference?, textAt?_eraseRollback, flag_eraseRollback,
      columnBodies_eraseRollback, changeColumns_eraseRollback, Function.comp_def]

mutual

/-- The items of a value are the same without what is undone. -/
theorem changelogItems_eraseRollback (value : YamlValue) :
    value.eraseRollback.changelogItems = value.changelogItems := by
  -- A plain value has nothing inside, and the other three pass the question on.
  match value with
  | .null | .bool _ | .number _ | .string _ => simp [eraseRollback]
  | .sequence items =>
    rw [eraseRollback, changelogItems, changelogItems, itemsOfSequence_eraseRollback items]
  | .mapping entries =>
    rw [eraseRollback, changelogItems, changelogItems, itemsOfEntries_eraseRollback entries]
  | .tagged _ value =>
    rw [eraseRollback, changelogItems, changelogItems, changelogItems_eraseRollback value]

/-- The items of a sequence are the same without what is undone. -/
theorem itemsOfSequence_eraseRollback (items : List YamlValue) :
    itemsOfSequence (eraseRollbackItems items) = itemsOfSequence items := by
  -- Item by item, in the order of the sequence.
  match items with
  | [] => rfl
  | value :: rest =>
    rw [eraseRollbackItems, itemsOfSequence, itemsOfSequence, changelogItems_eraseRollback value,
      itemsOfSequence_eraseRollback rest]

/-- The items of the entries of a mapping are the same without what is undone. -/
theorem itemsOfEntries_eraseRollback (entries : List (YamlValue × YamlValue)) :
    itemsOfEntries (eraseRollbackEntries entries) = itemsOfEntries entries := by
  match entries with
  | [] => rfl
  | (key, value) :: rest =>
    rw [eraseRollbackEntries, itemsOfEntries, itemsOfEntries, itemsOfEntries_eraseRollback rest,
      string?_eraseRollback]
    congr 1
    -- What stands under `rollback` is passed over; all else is read as before.
    split
    · rename_i noName
      simp [noName, changelogItems_eraseRollback value]
    · rfl
    · rename_i name noRollback named
      have kept : key.string? ≠ some "rollback" := by simpa [named] using noRollback
      rw [if_neg kept, item?_eraseRollback, changelogItems_eraseRollback value]

end

end YamlValue

namespace XmlElement

mutual

/-- An element without what is in those named `rollback`, at any depth. -/
def eraseRollback : XmlElement → XmlElement
  | .element name attributes text children =>
    if name = "rollback" then .element name [] "" []
    else .element name attributes text (eraseRollbackList children)

/-- The elements of a list without what is in those named `rollback`. -/
def eraseRollbackList : List XmlElement → List XmlElement
  | [] => []
  | first :: rest => eraseRollback first :: eraseRollbackList rest

end

/-! The elements that the changes ask for are never named `rollback`. -/

/-- The name of an element stays. -/
@[simp] theorem name_eraseRollback (element : XmlElement) :
    element.eraseRollback.name = element.name := by
  -- An element is either emptied or rebuilt, and has its name in both cases.
  obtain ⟨name, attributes, text, children⟩ := element
  rw [eraseRollback]
  split <;> rfl

/-- The elements of a list stay in their places. -/
theorem eraseRollbackList_eq (elements : List XmlElement) :
    eraseRollbackList elements = elements.map eraseRollback := by
  -- By induction on the list, as erasing goes from element to element.
  induction elements with
  | nil => rfl
  | cons first rest ih => rw [eraseRollbackList, ih, List.map_cons]

section Kept

variable {element : XmlElement}

/-- An element of another name loses only what is undone inside it. -/
theorem eraseRollback_kept (kept : element.name ≠ "rollback") :
    element.eraseRollback =
      .element element.name element.attributes element.text
        (element.children.map eraseRollback) := by
  -- The element is none that is undone, so only its children are gone through.
  obtain ⟨name, attributes, text, children⟩ := element
  rw [eraseRollback, if_neg (show name ≠ "rollback" from kept), eraseRollbackList_eq]
  rfl

/-- An attribute of an element of another name stays. -/
theorem attribute?_eraseRollback (kept : element.name ≠ "rollback") (key : String) :
    element.eraseRollback.attribute? key = element.attribute? key := by
  -- Only what is below the element changes, not its attributes.
  rw [eraseRollback_kept kept]
  rfl

/-- A truth value of an element of another name stays. -/
theorem flag_eraseRollback (kept : element.name ≠ "rollback") (key : String) :
    element.eraseRollback.flag key = element.flag key := by
  rw [flag, flag, attribute?_eraseRollback kept]

/-- The children of a name are those that there were. -/
theorem childrenNamed_eraseRollback (kept : element.name ≠ "rollback") (name : String) :
    element.eraseRollback.childrenNamed name =
      (element.childrenNamed name).map eraseRollback := by
  -- Names of children stay, so the same ones are taken.
  simp [eraseRollback_kept kept, childrenNamed, XmlElement.children, List.filter_map,
    Function.comp_def]

/-- The constraints of a column stay. -/
theorem constraints_eraseRollback (kept : element.name ≠ "rollback") :
    element.eraseRollback.constraints = element.constraints := by
  simp [constraints, flag_eraseRollback kept, attribute?_eraseRollback kept]

/-- The columns of a change stay. -/
theorem changeColumns_eraseRollback (kept : element.name ≠ "rollback") :
    element.eraseRollback.changeColumns = element.changeColumns := by
  rw [changeColumns, changeColumns, childrenNamed_eraseRollback kept, List.filterMap_map]
  refine List.filterMap_congr fun column member => ?_
  -- A column is no element named `rollback`, nor are its constraints.
  have named : column.name = "column" := by simpa using (List.mem_filter.mp member).2
  have column_kept : column.name ≠ "rollback" := by simp [named]
  have held : ((column.childrenNamed "constraints").map eraseRollback).map constraints =
      (column.childrenNamed "constraints").map constraints := by
    rw [List.map_map]
    refine List.map_congr_left fun block inside => constraints_eraseRollback ?_
    simp [show block.name = "constraints" by simpa using (List.mem_filter.mp inside).2]
  simp [attribute?_eraseRollback column_kept, childrenNamed_eraseRollback column_kept, held]

/-- The names of the columns of a change stay. -/
theorem columnNames_eraseRollback (kept : element.name ≠ "rollback") :
    (element.eraseRollback.childrenNamed "column").map (·.attribute? "name") =
      (element.childrenNamed "column").map (·.attribute? "name") := by
  -- A column is no element that is undone, so its attributes stay.
  rw [childrenNamed_eraseRollback kept, List.map_map]
  refine List.map_congr_left fun column member => attribute?_eraseRollback ?_ "name"
  simp [show column.name = "column" by simpa using (List.mem_filter.mp member).2]

/-- The change or the reference that an element is stays. -/
theorem item?_eraseRollback (kept : element.name ≠ "rollback") :
    element.eraseRollback.item? = element.item? := by
  unfold item?
  rw [name_eraseRollback]
  -- Each kind of item is read from attributes and columns, all of which stay.
  split <;>
    simp [change?, reference?, attribute?_eraseRollback kept, flag_eraseRollback kept,
      changeColumns_eraseRollback kept, columnNames_eraseRollback kept]

end Kept

mutual

/-- The items of an element are the same without what is undone. -/
theorem changelogItems_eraseRollback (element : XmlElement) :
    element.eraseRollback.changelogItems = element.changelogItems := by
  match element with
  | .element name attributes text children =>
    -- An element that is undone has no items before either.
    by_cases undone : name = "rollback"
    · simp [eraseRollback, changelogItems, undone]
    · have own := @item?_eraseRollback (.element name attributes text children) undone
      rw [eraseRollback, if_neg undone] at own ⊢
      rw [changelogItems, changelogItems, if_neg undone, if_neg undone, own,
        itemsOfElements_eraseRollback children]

/-- The items of elements are the same without what is undone. -/
theorem itemsOfElements_eraseRollback (elements : List XmlElement) :
    itemsOfElements (eraseRollbackList elements) = itemsOfElements elements := by
  -- Element by element, in the order of the list.
  match elements with
  | [] => rfl
  | first :: rest =>
    rw [eraseRollbackList, itemsOfElements, itemsOfElements, changelogItems_eraseRollback first,
      itemsOfElements_eraseRollback rest]

end

end XmlElement

namespace Changelog

/-- The document of a YAML changelog declares the same without what is undone. -/
theorem scanYaml_eraseRollback (document : YamlValue) (file : String) :
    document.eraseRollback.scanChangelog? file = document.scanChangelog? file := by
  -- The key of the log is none that is undone, so the log is there in both and has the same items.
  rw [YamlValue.scanChangelog?, YamlValue.scanChangelog?, YamlValue.get?_eraseRollback (by decide)]
  cases document.get? "databaseChangeLog" with
  | none => rfl
  | some log => simp [YamlValue.changelogItems_eraseRollback]

/-- The document of an XML changelog declares the same without what is undone. -/
theorem scanXml_eraseRollback (document : XmlElement) (file : String) :
    document.eraseRollback.scanChangelog? file = document.scanChangelog? file := by
  -- A document is read by its name and its items, and both stay.
  rw [XmlElement.scanChangelog?, XmlElement.scanChangelog?, XmlElement.name_eraseRollback,
    XmlElement.changelogItems_eraseRollback]

/--
What is undone never counts.

Documents that differ only in what stands under `rollback` say the same, at any depth. So do two
texts in SQL of which one has a line break where the other has a comment.
-/
theorem scan_undone :
    (∀ {document other : YamlValue}, document.eraseRollback = other.eraseRollback →
      ∀ file, document.scanChangelog? file = other.scanChangelog? file) ∧
    (∀ {document other : XmlElement}, document.eraseRollback = other.eraseRollback →
      document.changelogItems = other.changelogItems ∧
        ∀ file, document.scanChangelog? file = other.scanChangelog? file) ∧
    ∀ {before comment after : List Char}, SqlToken.SkipsComment before comment after →
      ∀ file, IndexStatement.scan (before ++ '\n' :: after) file =
        IndexStatement.scan (before ++ (comment ++ after)) file := by
  refine ⟨fun {document other} same file => ?_, fun {document other} same => ⟨?_, fun file => ?_⟩,
    fun skipped => IndexStatement.scan_comment skipped⟩
  -- Both documents say what is left of them says, and that is the same.
  · rw [← scanYaml_eraseRollback document, same, scanYaml_eraseRollback other]
  · rw [← XmlElement.changelogItems_eraseRollback document, same,
      XmlElement.changelogItems_eraseRollback other]
  · rw [← scanXml_eraseRollback document, same, scanXml_eraseRollback other]

/-- A change set in YAML that creates an index, with what is undone inside and behind it. -/
def undoneYaml (inside behind : YamlValue) : YamlValue :=
  .mapping [(.string "databaseChangeLog", .sequence [
    .mapping [(.string "createIndex", .mapping [(.string "tableName", .string "users"),
      (.string "rollback", inside),
      (.string "columns", .sequence [.mapping [(.string "name", .string "email")]])])],
    .mapping [(.string "rollback", behind)]])]

/-- A change set in XML that creates an index, with what is undone inside and behind it. -/
def undoneXml (inside behind : String) : XmlElement :=
  .element "databaseChangeLog" [] ""
    [.element "createIndex" [("tableName", "users")] ""
      [.element "rollback" [] inside [], .element "column" [("name", "email")] "" []],
    .element "rollback" [] behind [.element "sql" [] behind []]]

/-- In each format only the index that is not undone is found, whatever is. -/
theorem scan_undone_users :
    (undoneYaml .null (.string "CREATE INDEX a ON t (c)")).scanChangelog? "log" =
      (undoneYaml (.sequence []) .null).scanChangelog? "log" ∧
    (undoneXml "" "CREATE INDEX a ON t (c)").scanChangelog? "log" =
      (undoneXml "CREATE INDEX b ON t (c)" "").scanChangelog? "log" ∧
    IndexStatement.scan
        ("SELECT '--';".toList ++ '\n' :: "\nCREATE INDEX i ON users (email)".toList) "log" =
      IndexStatement.scan ("SELECT '--';".toList ++ ("--rollback CREATE INDEX a ON t (c)".toList ++
        "\nCREATE INDEX i ON users (email)".toList)) "log" := by
  obtain ⟨yaml, xml, sql⟩ := scan_undone
  -- The tokenizer comes to the comment behind a word, a blank, a string and a semicolon.
  have skipped : SqlToken.SkipsComment "SELECT '--';".toList
      "--rollback CREATE INDEX a ON t (c)".toList "\nCREATE INDEX i ON users (email)".toList :=
    ⟨.on (.on (.on (.on .here))), .line (by decide) (by simp)⟩
  exact ⟨yaml rfl "log", (xml rfl).2 "log", sql skipped "log"⟩

end Changelog

end IndexAudit
