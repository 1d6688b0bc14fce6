import IndexAudit.Proofs.Changelog.Outline

/-! What is declared by a changelog that is written as an XML document. -/

namespace IndexAudit

namespace Outline

/-- An attribute is looked up among those that have a value. -/
@[simp] theorem lookup_attributes_cons (own key : String) (value? : Option String)
    (fields : List (String × Option String)) :
    (attributes ((own, value?) :: fields)).lookup key =
      (if own = key then value? else none).or ((attributes fields).lookup key) := by
  cases value? with
  | none => simp [attributes]
  | some value =>
    -- Only a field with a value is written, and it is found if it has the key.
    by_cases same : own = key
    · simp [attributes, same]
    · have other : (key == own) = false := beq_eq_false_iff_ne.mpr (Ne.symm same)
      simp [attributes, List.lookup_cons, same, other]

/-- An element without attributes has no value for any key. -/
@[simp] theorem lookup_attributes_nil (key : String) : (attributes []).lookup key = none :=
  rfl

/-- A truth value is read as it is meant, wherever it stands. -/
theorem xmlFlag_eq {element : XmlElement} {key : String} {flag : Option Flag}
    (found : element.attribute? key = xmlFlag flag) : element.flag key = holds flag := by
  rw [XmlElement.flag, found]
  -- A truth value is written as its word, and a text as it stands.
  match flag with
  | none => rfl
  | some (.truth true) => simp [xmlFlag, holds]; decide
  | some (.truth false) => simp [xmlFlag, holds]; decide
  | some (.text _) => rfl

/-- The constraints of a column are read as they are meant. -/
theorem constraints_toXml (constraints : Constraints) :
    constraints.toXml.constraints = constraints.meant := by
  -- The two truth values are read by their keys, and the names are attributes as they are.
  have primary : constraints.toXml.flag "primaryKey" = holds constraints.isPrimaryKey :=
    xmlFlag_eq (by simp [Constraints.toXml, XmlElement.attribute?, XmlElement.attributes])
  have unique : constraints.toXml.flag "unique" = holds constraints.isUnique :=
    xmlFlag_eq (by simp [Constraints.toXml, XmlElement.attribute?, XmlElement.attributes])
  rw [XmlElement.constraints, Constraints.meant, primary, unique]
  simp [Constraints.toXml, XmlElement.attribute?, XmlElement.attributes]

/-- The columns among the children of a change are those that it lists. -/
theorem childrenNamed_columns (name text : String) (given : List (String × String))
    (columns : List Column) :
    (XmlElement.element name given text (columns.map (·.toXml))).childrenNamed "column" =
      columns.map (·.toXml) := by
  -- The elements are all columns, so none is left out.
  simp [XmlElement.childrenNamed, XmlElement.children, Column.toXml, XmlElement.name]

/-- The name of a column is its attribute. -/
theorem attribute?_column (column : Column) : column.toXml.attribute? "name" = column.name := by
  simp [Column.toXml, XmlElement.attribute?, XmlElement.attributes]

/-- The columns of a change are read as they are meant. -/
theorem changeColumns_xml {element : XmlElement} {columns : List Column}
    (listed : element.childrenNamed "column" = columns.map (·.toXml)) :
    element.changeColumns = columns.filterMap (·.meant?) := by
  rw [XmlElement.changeColumns, listed, List.filterMap_map]
  -- Each column is read by itself, with the constraints that it has.
  congr 1
  funext column
  have held : column.toXml.childrenNamed "constraints" =
      (column.constraints.map (·.toXml)).toList := by
    cases given : column.constraints <;>
      simp [XmlElement.childrenNamed, Column.toXml, XmlElement.children, given,
        Constraints.toXml, XmlElement.name]
  rw [Function.comp_apply, attribute?_column, held, Column.meant?]
  cases column.name with
  | none => rfl
  | some name => cases column.constraints <;> simp [constraints_toXml]

/-- The items of elements are those of each one. -/
theorem itemsOfElements_eq (elements : List XmlElement) :
    XmlElement.itemsOfElements elements = elements.flatMap (·.changelogItems) := by
  -- By induction on the list, as items are gathered element by element.
  induction elements with
  | nil => rfl
  | cons element elements ih => rw [XmlElement.itemsOfElements, ih, List.flatMap_cons]

/-- An element of a name that is no change and no reference is read as its text and children. -/
theorem changelogItems_element {name : String} (kept : name ≠ "rollback")
    {given : List (String × String)} {text : String} {children : List XmlElement}
    (item? : Option ChangelogItem)
    (read : (XmlElement.element name given text children).item? = item?) :
    (XmlElement.element name given text children).changelogItems =
      item?.toList ++ .text text :: XmlElement.itemsOfElements children := by
  -- The element is none that is undone, and what it is itself is known.
  rw [XmlElement.changelogItems, if_neg kept, read]

section Declared

variable {file : String}

/-- The empty text defines no index. -/
theorem scan_empty : IndexStatement.scan "".toList file = [] :=
  rfl

/-- Empty texts among the items declare nothing. -/
theorem ofItems_blank {items : List ChangelogItem} (blank : ∀ item ∈ items, item = .text "") :
    Scanned.ofItems file items = Scanned.ofItems file [] := by
  have same : items = (List.replicate items.length "").map .text := by
    rw [List.map_replicate]
    exact List.eq_replicate_of_mem blank
  -- The items are as many empty texts, none of which defines an index.
  rw [same]
  exact ofItems_silent fun word member => by rw [List.eq_of_mem_replicate member, scan_empty]

/-- The elements of columns hold no text. -/
theorem items_xmlColumns (columns : List Column) :
    ∀ item ∈ XmlElement.itemsOfElements (columns.map (·.toXml)), item = .text "" := by
  intro item member
  rw [itemsOfElements_eq, List.flatMap_map, List.mem_flatMap] at member
  obtain ⟨column, -, member⟩ := member
  rw [Column.toXml, changelogItems_element (by decide) none rfl] at member
  -- Below a column stand at most its constraints, which hold no text either.
  cases given : column.constraints with
  | none => simpa [given, XmlElement.itemsOfElements] using member
  | some held =>
    simpa [given, XmlElement.itemsOfElements, Constraints.toXml,
      changelogItems_element (show "constraints" ≠ "rollback" by decide) none rfl]
      using member

/-- An element without text, and with none below it, declares what it is itself. -/
theorem ofItems_element {name : String} (kept : name ≠ "rollback")
    {given : List (String × String)} {children : List XmlElement} {item? : Option ChangelogItem}
    (read : (XmlElement.element name given "" children).item? = item?)
    (blank : ∀ item ∈ XmlElement.itemsOfElements children, item = .text "") :
    Scanned.ofItems file (XmlElement.element name given "" children).changelogItems =
      Scanned.ofItems file item?.toList := by
  rw [changelogItems_element kept _ read]
  -- The text of the element and its children say nothing.
  have behind : Scanned.ofItems file (.text "" :: XmlElement.itemsOfElements children) =
      Scanned.ofItems file [] :=
    ofItems_blank (List.forall_mem_cons.mpr ⟨rfl, blank⟩)
  have same := ofItems_append (rfl : Scanned.ofItems file item?.toList = _) behind
  rwa [List.append_nil] at same

/-- A change to a table is read where the table is named. -/
theorem xmlChange?_eq {element : XmlElement} {table : Option String}
    (named : element.attribute? "tableName" = table) (make : String → Option Change) :
    element.change? make = table.bind fun table => (make table).map .change := by
  rw [XmlElement.change?, named]
  -- Without a table there is no change, and with one it is made as it is.
  cases table with
  | none => rfl
  | some table => cases made : make table <;> simp [made]

/-- A change that lists new columns is read as it is meant. -/
theorem ofItems_newColumns {name : String} {make : String → List ChangeColumn → Change}
    (kept : name ≠ "rollback")
    (reads : ∀ given children, (XmlElement.element name given "" children).item? =
      (XmlElement.element name given "" children).change? fun table =>
        some (make table (XmlElement.element name given "" children).changeColumns))
    (table : Option String) (columns : List Column) :
    Scanned.ofItems file (XmlElement.element name (attributes [("tableName", table)]) ""
      (columns.map (·.toXml))).changelogItems =
      Scanned.ofItems file (table.map fun table =>
        ChangelogItem.change (make table (columns.filterMap (·.meant?)))).toList := by
  -- The item of the element is the change with its columns, and the columns below declare nothing.
  refine ofItems_element kept ?_ (items_xmlColumns columns)
  rw [reads, @xmlChange?_eq _ table (by simp [XmlElement.attribute?, XmlElement.attributes]),
    changeColumns_xml (childrenNamed_columns ..)]
  cases table <;> rfl

mutual

/-- An entry in XML declares what it means. -/
theorem ofItems_toXml : ∀ entry : Outline,
    Scanned.ofItems file entry.toXml.changelogItems = Scanned.ofItems file entry.items
  | .createIndex table name isUnique columns => by
    rw [toXml, items]
    refine ofItems_element (by decide) ?_ (items_xmlColumns columns)
    -- The change is read off the attributes and the columns among the children.
    rw [XmlElement.item?.eq_def]
    simp only [XmlElement.name]
    rw [@xmlChange?_eq _ table (by simp [XmlElement.attribute?, XmlElement.attributes]),
      childrenNamed_columns, @xmlFlag_eq _ _ isUnique
        (by simp [XmlElement.attribute?, XmlElement.attributes])]
    have names : (columns.map (·.toXml)).map (·.attribute? "name") = columns.map (·.name) := by
      simp [attribute?_column, Function.comp_def]
    rw [names]
    cases table with
    | none => rfl
    | some table => simp [XmlElement.attribute?, XmlElement.attributes]
  | .addKey isPrimary table columnNames name => by
    rw [toXml, items]
    refine ofItems_element (by cases isPrimary <;> decide) ?_ (by simp [XmlElement.itemsOfElements])
    generalize held : XmlElement.element (keyTag isPrimary) (attributes [("tableName", table),
      ("columnNames", columnNames), ("constraintName", name)]) "" [] = element
    have named : element.attribute? "tableName" = table := by
      simp [← held, XmlElement.attribute?, XmlElement.attributes]
    have listed : element.attribute? "columnNames" = columnNames := by
      simp [← held, XmlElement.attribute?, XmlElement.attributes]
    have called : element.attribute? "constraintName" = name := by
      simp [← held, XmlElement.attribute?, XmlElement.attributes]
    have tag : element.name = keyTag isPrimary := by rw [← held, XmlElement.name]
    -- The two kinds of key are read alike.
    cases isPrimary <;>
      simp [XmlElement.item?, tag, keyTag, xmlChange?_eq named, listed, called, Function.comp_def]
  | .createTable table columns => by
    rw [toXml, items]
    exact ofItems_newColumns (by decide) (fun _ _ => rfl) table columns
  | .addColumn table columns => by
    rw [toXml, items]
    exact ofItems_newColumns (by decide) (fun _ _ => rfl) table columns
  | .sql body => by
    rw [toXml, items, changelogItems_element (by decide) none rfl]
    rfl
  | .reference kind path isRelative => by
    rw [toXml, items]
    refine ofItems_element (by cases kind <;> decide) ?_ (by simp [XmlElement.itemsOfElements])
    generalize held : XmlElement.element (referenceTag kind) (attributes [(pathTag kind, path),
      ("relativeToChangelogFile", xmlFlag isRelative)]) "" [] = element
    have given : element.attribute? (pathTag kind) = path := by
      cases kind <;> simp [← held, XmlElement.attribute?, XmlElement.attributes, pathTag]
    have relative : element.flag "relativeToChangelogFile" = holds isRelative :=
      xmlFlag_eq (by
        cases kind <;> simp [← held, XmlElement.attribute?, XmlElement.attributes, pathTag])
    have tag : element.name = referenceTag kind := by rw [← held, XmlElement.name]
    cases kind <;>
      simp only [XmlElement.item?, tag, referenceTag, XmlElement.reference?, pathTag, relative]
        at given ⊢ <;>
      rw [given] <;> cases path <;> rfl
  | .rollback body entries => by
    rw [toXml, items, XmlElement.changelogItems, if_pos rfl]
  | .changeSet id author entries => by
    rw [toXml, items, changelogItems_element (by decide) none rfl]
    exact @ofItems_append _ [.text ""] [] _ _ (ofItems_blank (by simp)) (ofItems_toXmlList entries)

/-- The entries of a list in XML declare what they mean. -/
theorem ofItems_toXmlList : ∀ entries : List Outline,
    Scanned.ofItems file (XmlElement.itemsOfElements (toXmlList entries)) =
      Scanned.ofItems file (itemsOf entries)
  -- By recursion on the entries, each of which declares what it means.
  | [] => by rw [toXmlList, itemsOf, XmlElement.itemsOfElements]
  | entry :: entries => by
    rw [toXmlList, itemsOf, XmlElement.itemsOfElements]
    exact ofItems_append (ofItems_toXml entry) (ofItems_toXmlList entries)

end

end Declared

end Outline

end IndexAudit
