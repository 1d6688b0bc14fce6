import IndexAudit.Changelog.Document
import IndexAudit.Proofs.Changelog.Outline
import IndexAudit.Proofs.Sql.Comment
import IndexAudit.Proofs.Xml.Reading
import Mathlib.Data.List.Forall2

/-!
Comments in the text of an XML changelog.

A comment parts the text that it stands in, and each part is taken without the white space around
it. So a comment takes the white space on its two sides away with it. This says nothing as long as
the tokens there stay apart without it.
-/

namespace IndexAudit

namespace XmlReference

/-- What references stand for in a text does not hang on what stands behind it. -/
theorem expandFrom?_append {pending : Option (List Char)} {front text : List Char}
    (found : expandFrom? pending front = some text) (back : List Char) :
    expandFrom? pending (front ++ back) = (expand? back).map (text ++ ·) := by
  -- The front ends inside of no reference, since it is expanded on its own.
  induction front generalizing pending text with
  | nil =>
    cases pending with
    | some name => cases found
    | none =>
      obtain rfl := Option.some.inj found
      simp [expand?]
  | cons c front ih =>
    cases pending with
    | none =>
      by_cases begins : c = '&'
      · rw [expandFrom?] at found
        simp only [if_pos begins] at found
        rw [List.cons_append, expandFrom?]
        simp only [if_pos begins]
        exact ih found
      · rw [expandFrom?] at found
        simp only [if_neg begins] at found
        obtain ⟨more, later, rfl⟩ := Option.map_eq_some_iff.mp found
        rw [List.cons_append, expandFrom?]
        simp only [if_neg begins]
        rw [ih later, Option.map_map]
        rfl
    | some name =>
      rw [expandFrom?] at found
      rw [List.cons_append, expandFrom?]
      by_cases begins : c = '&'
      · rw [if_pos begins] at found
        cases found
      · rw [if_neg begins] at found ⊢
        by_cases ends : c = ';'
        · rw [if_pos ends] at found ⊢
          obtain ⟨character, resolved, found⟩ := Option.bind_eq_some_iff.mp found
          obtain ⟨more, later, rfl⟩ := Option.map_eq_some_iff.mp found
          rw [resolved, ih later]
          simp [Function.comp_def]
        · rw [if_neg ends] at found ⊢
          exact ih found

/-- References are expanded in a text and in what stands behind it apart. -/
theorem expand?_append {front text : List Char} (found : expand? front = some text)
    (back : List Char) : expand? (front ++ back) = (expand? back).map (text ++ ·) :=
  expandFrom?_append found back

/-- White space stands for itself. -/
theorem expand?_gaps {gap : List Char} (gaps : ∀ c ∈ gap, XmlTag.isGap c = true) :
    expand? gap = some gap := by
  induction gap with
  | nil => rfl
  | cons c gap ih =>
    obtain ⟨here, later⟩ := List.forall_mem_cons.mp gaps
    -- A gap is no reference, so it is passed on as it is.
    have plain : c ≠ '&' := by
      rintro rfl
      exact absurd here (by decide)
    rw [expand?, expandFrom?]
    simp only [if_neg plain]
    rw [← expand?, ih later]
    rfl

/-- A text with anything in it stands for something. -/
theorem expandFrom?_ne_nil {pending : Option (List Char)} {text : List Char}
    (begun : pending.isSome = true ∨ text ≠ []) : expandFrom? pending text ≠ some [] := by
  -- A reference that is begun is not given up, and comes to one character at least.
  induction text generalizing pending with
  | nil =>
    cases pending with
    | none => simp at begun
    | some name => simp [expandFrom?]
  | cons c text ih =>
    cases pending with
    | none =>
      rw [expandFrom?]
      split
      · exact ih (.inl rfl)
      · simp
    | some name =>
      rw [expandFrom?]
      split
      · simp
      · split
        · intro same
          obtain ⟨character, _, found⟩ := Option.bind_eq_some_iff.mp same
          simp at found
        · exact ih (.inl rfl)

end XmlReference

namespace XmlElement

/-- Elements that are the same but for texts, and these define the same indexes. -/
inductive Alike (file : String) : XmlElement → XmlElement → Prop
  | element {name : String} {attributes : List (String × String)} {text other : String}
      {children others : List XmlElement}
      (texts : IndexStatement.scan text.toList file = IndexStatement.scan other.toList file)
      (below : List.Forall₂ (Alike file) children others) :
      Alike file (.element name attributes text children) (.element name attributes other others)

mutual

/-- Each element is like itself. -/
theorem alike_refl (file : String) : ∀ element : XmlElement, Alike file element element
  -- By recursion on the tree: an element is like itself if its children are.
  | .element _ _ _ children => .element rfl (forall₂_alike_refl file children)

/-- Elements are each like itself. -/
theorem forall₂_alike_refl (file : String) :
    ∀ elements : List XmlElement, List.Forall₂ (Alike file) elements elements
  | [] => .nil
  | first :: rest => .cons (alike_refl file first) (forall₂_alike_refl file rest)

end

namespace Alike

variable {file : String} {first second : XmlElement}

theorem name_eq (alike : Alike file first second) : first.name = second.name := by
  cases alike
  rfl

theorem attributes_eq (alike : Alike file first second) : first.attributes = second.attributes := by
  cases alike
  rfl

theorem children (alike : Alike file first second) :
    List.Forall₂ (Alike file) first.children second.children := by
  cases alike
  assumption

theorem attribute?_eq (alike : Alike file first second) (key : String) :
    first.attribute? key = second.attribute? key := by
  rw [attribute?, attribute?, alike.attributes_eq]

theorem flag_eq (alike : Alike file first second) (key : String) :
    first.flag key = second.flag key := by
  rw [flag, flag, alike.attribute?_eq]

section Lists

variable {elements others : List XmlElement} (alike : List.Forall₂ (Alike file) elements others)
include alike

/-- What is the same of two elements that are alike is the same along lists of them. -/
theorem map_eq {β : Type} {f : XmlElement → β}
    (same : ∀ {first second}, Alike file first second → f first = f second) :
    elements.map f = others.map f := by
  -- The lists are alike element by element.
  induction alike with
  | nil => rfl
  | cons here _ ih => rw [List.map_cons, List.map_cons, same here, ih]

/-- What two elements that are alike are alike read as is the same along lists of them. -/
theorem filterMap_eq {β : Type} {f : XmlElement → Option β}
    (same : ∀ {first second}, Alike file first second → f first = f second) :
    elements.filterMap f = others.filterMap f := by
  -- The lists are alike element by element, so the same ones are left out.
  induction alike with
  | nil => rfl
  | cons here _ ih => rw [List.filterMap_cons, List.filterMap_cons, same here, ih]

/-- The elements of a name are alike. -/
theorem filter_name (name : String) :
    List.Forall₂ (Alike file) (elements.filter (·.name == name))
      (others.filter (·.name == name)) := by
  induction alike with
  | nil => exact .nil
  | cons here _ ih =>
    -- Elements that are alike have one name, so both are kept or neither is.
    rw [List.filter_cons, List.filter_cons, here.name_eq]
    split
    · exact .cons here ih
    · exact ih

end Lists

theorem childrenNamed (alike : Alike file first second) (name : String) :
    List.Forall₂ (Alike file) (first.childrenNamed name) (second.childrenNamed name) :=
  filter_name alike.children name

theorem constraints_eq (alike : Alike file first second) :
    first.constraints = second.constraints := by
  simp only [constraints, alike.flag_eq, alike.attribute?_eq]

/-- The columns that two changes list are the same. -/
theorem changeColumns_eq (alike : Alike file first second) :
    first.changeColumns = second.changeColumns := by
  -- Only columns are gone through, and of each an attribute and the constraints are read.
  rw [changeColumns, changeColumns]
  refine filterMap_eq (alike.childrenNamed "column") fun column => ?_
  rw [column.attribute?_eq, map_eq (column.childrenNamed "constraints") constraints_eq]

/-- The change or the reference that an element is hangs on none of the texts. -/
theorem item?_eq (alike : Alike file first second) : first.item? = second.item? := by
  have names := map_eq (alike.childrenNamed "column") fun column => column.attribute?_eq "name"
  -- Only names and attributes are looked at, of the element and of those below it.
  unfold item?
  rw [alike.name_eq]
  split <;>
    simp only [change?, XmlElement.reference?, alike.attribute?_eq, alike.flag_eq,
      alike.changeColumns_eq, names]

end Alike

mutual

/-- Elements that are alike declare the same. -/
theorem ofItems_alike (file : String) : ∀ {first second : XmlElement}, Alike file first second →
    Scanned.ofItems file first.changelogItems = Scanned.ofItems file second.changelogItems
  | .element name attributes text children, _, alike => by
    have own := alike.item?_eq
    cases alike with
    | @element _ _ _ other _ others texts below =>
      rw [changelogItems, changelogItems, own]
      -- What is rolled back declares nothing; any other element adds its text and what is below it.
      split
      · rfl
      · have said : Scanned.ofItems file [.text text] = Scanned.ofItems file [.text other] := by
          simp [Scanned.ofItems, ChangelogItem.indexedColumns, ChangelogItem.reference?, texts]
        exact Outline.ofItems_append rfl (Outline.ofItems_append said (ofItems_forall₂ file below))

/-- Elements that are each alike declare the same. -/
theorem ofItems_forall₂ (file : String) : ∀ {elements others : List XmlElement},
    List.Forall₂ (Alike file) elements others →
      Scanned.ofItems file (itemsOfElements elements) = Scanned.ofItems file (itemsOfElements others)
  -- By recursion on the lists: their first elements declare the same, and so do the others.
  | [], _, .nil => rfl
  | first :: rest, _, .cons here later => by
    rw [itemsOfElements, itemsOfElements]
    exact Outline.ofItems_append (ofItems_alike file here) (ofItems_forall₂ file later)

end

end XmlElement

/-- Open elements that are the same but for texts, and these define the same with more behind. -/
structure OpenElement.Alike (file : String) (first second : OpenElement) : Prop where
  written : first.written = second.written
  attributes : first.attributes = second.attributes
  texts : ∀ more,
    IndexStatement.scan (first.text ++ more) file = IndexStatement.scan (second.text ++ more) file
  children : List.Forall₂ (XmlElement.Alike file) first.children second.children

/-- Forests whose elements are alike. -/
structure XmlForest.Alike (file : String) (first second : XmlForest) : Prop where
  opened : List.Forall₂ (OpenElement.Alike file) first.opened second.opened
  root : Option.Rel (XmlElement.Alike file) first.root second.root

namespace OpenElement

variable {file : String} {first second : OpenElement}

theorem alike_refl (file : String) (opened : OpenElement) : Alike file opened opened :=
  ⟨rfl, rfl, fun _ => rfl, XmlElement.forall₂_alike_refl file opened.children⟩

/-- Open elements that are alike are closed as such. -/
theorem Alike.finish (alike : Alike file first second) :
    XmlElement.Alike file first.finish second.finish := by
  -- With nothing more behind, the texts define the same; the children are only turned around.
  have texts := alike.texts []
  rw [List.append_nil, List.append_nil] at texts
  rw [OpenElement.finish, OpenElement.finish, alike.written, alike.attributes]
  refine .element ?_ (List.forall₂_reverse_iff.mpr alike.children)
  rwa [String.toList_ofList, String.toList_ofList]

/-- Text behind what open elements hold leaves them alike. -/
theorem Alike.addText (alike : Alike file first second) (text : List Char) :
    Alike file (first.addText text) (second.addText text) := by
  -- More text may follow either element, so may this text with more behind it.
  refine ⟨alike.written, alike.attributes, fun more => ?_, alike.children⟩
  simpa [OpenElement.addText] using alike.texts (text ++ more)

/-- Children that are alike leave open elements alike. -/
theorem Alike.addChild {child other : XmlElement} (alike : Alike file first second)
    (children : XmlElement.Alike file child other) :
    Alike file (first.addChild child) (second.addChild other) :=
  -- One child more on either side keeps the children alike in pairs.
  ⟨alike.written, alike.attributes, alike.texts, .cons children alike.children⟩

end OpenElement

namespace XmlForest

variable {file : String} {first second : XmlForest}

/-- Elements that are closed alike leave forests alike. -/
theorem Alike.close {done other : XmlElement} (alike : Alike file first second)
    (same : XmlElement.Alike file done other) :
    Alike file (first.close done) (second.close other) := by
  obtain ⟨opened, root⟩ := first
  obtain ⟨opened', root'⟩ := second
  obtain ⟨openedAlike, rootAlike⟩ := alike
  -- The last element that is closed is the root, any other one goes to the one around it.
  cases openedAlike with
  | nil => exact ⟨.nil, .some same⟩
  | cons here outer => exact ⟨.cons (here.addChild same) outer, rootAlike⟩

/-- More text leaves forests alike. -/
theorem Alike.addText? (alike : Alike file first second) (text? : Option (List Char)) :
    Option.Rel (Alike file) (first.addText? text?) (second.addText? text?) := by
  obtain ⟨opened, root⟩ := first
  obtain ⟨opened', root'⟩ := second
  obtain ⟨openedAlike, rootAlike⟩ := alike
  -- Outside all elements text says nothing; inside it is added on both sides.
  cases openedAlike with
  | nil => exact .some ⟨.nil, rootAlike⟩
  | cons here outer =>
    cases text? with
    | none => exact .none
    | some text => exact .some ⟨.cons (here.addText text) outer, rootAlike⟩

/-- One more mark leaves forests alike. -/
theorem Alike.add? (alike : Alike file first second) (mark : XmlMark) :
    Option.Rel (Alike file) (first.add? mark) (second.add? mark) := by
  -- One case for each mark: all but text leave the texts that are there alone.
  cases mark with
  | opening tag =>
    cases begun : OpenElement.ofTag? tag with
    | none => simp [XmlForest.add?, begun]
    | some opened =>
      have begins := OpenElement.alike_refl file opened
      simpa [XmlForest.add?, begun] using ⟨.cons begins alike.opened, alike.root⟩
  | empty tag =>
    cases begun : OpenElement.ofTag? tag with
    | none => simp [XmlForest.add?, begun]
    | some opened =>
      simpa [XmlForest.add?, begun] using alike.close (XmlElement.alike_refl file opened.finish)
  | closing name =>
    obtain ⟨opened, root⟩ := first
    obtain ⟨opened', root'⟩ := second
    obtain ⟨openedAlike, rootAlike⟩ := alike
    cases openedAlike with
    | nil => exact .none
    | @cons inner inner' outer outer' here behind =>
      have left : Alike file ⟨outer, root⟩ ⟨outer', root'⟩ := ⟨behind, rootAlike⟩
      simp only [XmlForest.add?, here.written]
      split
      · exact .some (left.close here.finish)
      · exact .none
  | text raw => exact alike.addText? _
  | literal text => exact alike.addText? _

/-- Marks leave forests alike. -/
theorem Alike.foldlM_add? (alike : Alike file first second) (marks : List XmlMark) :
    Option.Rel (Alike file) (marks.foldlM XmlForest.add? first)
      (marks.foldlM XmlForest.add? second) := by
  induction marks generalizing first second with
  | nil => exact .some alike
  | cons mark marks ih =>
    have next := alike.add? mark
    rw [List.foldlM_cons, List.foldlM_cons]
    -- Both forests take the mark, or neither of them does.
    generalize first.add? mark = first' at next ⊢
    generalize second.add? mark = second' at next ⊢
    cases next with
    | none => exact .none
    | some next => exact ih next

/-- What a forest declares in the end, if nothing is left open. -/
def scan? (file : String) (forest : XmlForest) : Option Scanned :=
  (if forest.opened.isEmpty then forest.root else none).bind (XmlElement.scanChangelog? file)

/-- Forests that are alike declare the same in the end. -/
theorem Alike.scan?_eq (alike : Alike file first second) :
    first.scan? file = second.scan? file := by
  obtain ⟨opened, root⟩ := first
  obtain ⟨opened', root'⟩ := second
  obtain ⟨openedAlike, rootAlike⟩ := alike
  -- With something left open there is no document.
  cases openedAlike with
  | cons _ _ => rfl
  | nil =>
    cases rootAlike with
    | none => rfl
    | some same =>
      simp only [scan?, List.isEmpty_nil, if_true, Option.bind_some, XmlElement.scanChangelog?,
        same.name_eq, XmlElement.ofItems_alike file same]

/-- Forests that are alike declare the same behind further marks. -/
theorem Alike.declares_eq (alike : Alike file first second) (marks : List XmlMark) :
    (marks.foldlM XmlForest.add? first).bind (scan? file) =
      (marks.foldlM XmlForest.add? second).bind (scan? file) := by
  have last := alike.foldlM_add? marks
  generalize marks.foldlM XmlForest.add? first = first' at last ⊢
  generalize marks.foldlM XmlForest.add? second = second' at last ⊢
  -- The marks fail for both or for neither, and what they lead to is alike.
  cases last with
  | none => rfl
  | some same => exact same.scan?_eq

/-- Text between tags goes to the innermost open element, without the white space around it. -/
theorem foldlM_textMark? (inner : OpenElement) (outer : List OpenElement) (root : Option XmlElement)
    (run : List Char) :
    (XmlMark.textMark? run).toList.foldlM XmlForest.add? ⟨inner :: outer, root⟩ =
      (XmlReference.expand? (XmlMark.kept run)).map fun text =>
        ⟨inner.addText text :: outer, root⟩ := by
  -- White space alone is no mark, and adds nothing.
  by_cases blank : XmlMark.kept run = []
  · have none : XmlMark.textMark? run = none := by
      rw [XmlMark.kept] at blank
      simp [XmlMark.textMark?, blank]
    rw [none, blank]
    simp [XmlReference.expand?, XmlReference.expandFrom?, OpenElement.addText]
  · have mark : XmlMark.textMark? run = some (.text (XmlMark.kept run)) := by
      rw [XmlMark.kept] at blank
      simp [XmlMark.textMark?, XmlMark.kept, blank]
    rw [mark]
    simp [XmlForest.add?, XmlForest.addText?]

end XmlForest

/-- The text that comes next behind a place in a text between tags. -/
def XmlMark.nextText (tail : List Char) : List Char :=
  (XmlReference.expand? (kept (tail.takeWhile (· != '<')))).getD []

namespace Changelog

/-- What a document declares is what its forest does in the end. -/
theorem scanXml?_eq (file : String) (text : List Char) :
    scanXml? file text = (XmlMark.ofText? text).bind fun marks =>
      (marks.foldlM XmlForest.add? ⟨[], none⟩).bind (XmlForest.scan? file) := by
  -- Reading the element is reading the marks and adding them to a forest, one after the other.
  rw [scanXml?, XmlElement.ofText?, Option.bind_eq_bind, Option.bind_assoc]
  refine Option.bind_congr fun marks _ => ?_
  rw [XmlElement.ofMarks?, Option.bind_eq_bind, Option.bind_assoc]
  rfl

/--
A place inside of an element: the text in front of it back to the last tag, and what is before that.

The element is `before` at the last tag, and has the text as well at the place.
-/
structure IsPlace (head : List Char) (inner : OpenElement) (outer : List OpenElement)
    (root : Option XmlElement) (front run : List Char) (earlier : List XmlMark)
    (before : OpenElement) : Prop where
  whole : head = front ++ run
  plain : '<' ∉ run
  ends : ∀ c ∈ front.getLast?, XmlTag.isGap c = false
  reads : ∀ rest, XmlMark.ofText? (front ++ rest) = (XmlMark.marks? rest).map (earlier ++ ·)
  forest : earlier.foldlM XmlForest.add? ⟨[], none⟩ = some ⟨before :: outer, root⟩
  text : ∃ text, XmlReference.expand? (XmlMark.kept run) = some text ∧ inner = before.addText text

/-- What is read up to a place inside of an element has a last tag. -/
theorem exists_isPlace {head : List Char} {marks : List XmlMark} {inner : OpenElement}
    {outer : List OpenElement} {root : Option XmlElement}
    (read : XmlMark.ofText? head = some marks)
    (inside : marks.foldlM XmlForest.add? ⟨[], none⟩ = some ⟨inner :: outer, root⟩) :
    ∃ front run earlier before, IsPlace head inner outer root front run earlier before := by
  rw [XmlMark.ofText?, ← XmlMark.marks?] at read
  generalize core : (if head.head? = some (Char.ofNat 0xFEFF) then head.drop 1 else head) = text
    at read
  obtain ⟨front, run, earlier, isFront, rfl⟩ := XmlMark.exists_isFront read
  rw [List.foldlM_append, Option.bind_eq_bind, Option.bind_eq_some_iff] at inside
  obtain ⟨⟨opened, root'⟩, forest, added⟩ := inside
  cases opened with
  | nil =>
    -- Outside of all elements, text opens none.
    exfalso
    rw [XmlMark.textMark?] at added
    split at added
    · cases added
    · cases added
  | cons before outer' =>
    rw [XmlForest.foldlM_textMark?] at added
    obtain ⟨given, expanded, same⟩ := Option.map_eq_some_iff.mp added
    obtain ⟨⟨rfl, rfl⟩, rfl⟩ : (before.addText given = inner ∧ outer' = outer) ∧ root' = root := by
      simpa using same
    -- The front is not empty, since an element has been opened in it.
    have filled : front ≠ [] := by
      rintro rfl
      have none : earlier = [] := by
        simpa [XmlMark.marks?, XmlMark.readWithin?, XmlMark.textMark?, dropEndWhile] using
          isFront.reads []
      rw [none] at forest
      cases forest
    have ends : ∀ c ∈ front.getLast?, XmlTag.isGap c = false := fun c last => by
      rw [isFront.ends c last]
      rfl
    obtain ⟨c, more, rfl⟩ := List.exists_cons_of_ne_nil filled
    by_cases order : head.head? = some (Char.ofNat 0xFEFF)
    · -- A byte order mark in front does not count.
      obtain ⟨behind, rfl⟩ := List.head?_eq_some_iff.mp order
      obtain rfl : behind = text := by simpa using core
      refine ⟨Char.ofNat 0xFEFF :: c :: more, run, earlier, before, ?_, isFront.plain, ends,
        fun rest => ?_, forest, given, expanded, rfl⟩
      · rw [isFront.whole]
        rfl
      · rw [← isFront.reads]
        rfl
    · rw [if_neg order] at core
      subst core
      refine ⟨c :: more, run, earlier, before, isFront.whole, isFront.plain, ends, fun rest => ?_,
        forest, given, expanded, rfl⟩
      have other : (c :: more ++ rest).head? ≠ some (Char.ofNat 0xFEFF) := by
        rw [isFront.whole] at order
        exact order
      rw [← isFront.reads, XmlMark.ofText?, if_neg other]
      rfl

/-- White space at a place leaves what text says, as long as the tokens there stay apart. -/
theorem alike_gap (file : String) {gap text : List Char} (inner : OpenElement)
    (outer : List OpenElement) (root : Option XmlElement)
    (gaps : ∀ c ∈ gap, XmlTag.isGap c = true)
    (apart : ∀ c ∈ text.head?, ∀ more, SqlToken.Reaches (c :: more) (inner.text ++ c :: more))
    (empty : text = [] → gap = []) :
    XmlForest.Alike file ⟨inner.addText text :: outer, root⟩
      ⟨inner.addText (gap ++ text) :: outer, root⟩ := by
  -- All that counts as white space between tags counts as white space to the tokenizer.
  have blank : ∀ w ∈ gap, isBlank w = true := by
    intro w member
    have white := gaps w member
    simp only [XmlTag.isGap, Bool.or_eq_true, decide_eq_true_eq] at white
    rcases white with ((rfl | rfl) | rfl) | rfl <;> decide +kernel
  have children := XmlElement.forall₂_alike_refl file inner.children
  refine ⟨.cons ⟨rfl, rfl, fun more => ?_, children⟩ ?_, ?_⟩
  · cases text with
    | nil => rw [empty rfl, List.append_nil]
    | cons c text =>
      have filled : c :: (text ++ more) ≠ [] := List.cons_ne_nil _ _
      have spaced := IndexStatement.scan_gap (apart c rfl (text ++ more)) filled blank file
      simpa [OpenElement.addText] using spaced.symm
  · exact List.forall₂_same.mpr fun opened _ => OpenElement.alike_refl file opened
  · cases root with
    | none => exact .none
    | some root => exact .some (XmlElement.alike_refl file root)

section Place

variable {head : List Char} {inner : OpenElement} {outer : List OpenElement}
  {root : Option XmlElement} {front run : List Char} {earlier : List XmlMark} {before : OpenElement}
  (place : IsPlace head inner outer root front run earlier before)
include place

/-- What a document declares goes through the text in front of its next tag. -/
theorem IsPlace.scanXml?_run (file : String) {other : List Char} (plain : '<' ∉ other)
    {rest : List Char} (begins : ∀ c ∈ rest.head?, c = '<') :
    scanXml? file (front ++ (other ++ rest)) = (XmlMark.marks? rest).bind fun later =>
      (XmlReference.expand? (XmlMark.kept other)).bind fun text =>
        (later.foldlM XmlForest.add? ⟨before.addText text :: outer, root⟩).bind
          (XmlForest.scan? file) := by
  rw [scanXml?_eq, place.reads, XmlMark.marks?_append plain begins, Option.map_map, Option.bind_map]
  refine Option.bind_congr fun later _ => ?_
  -- The marks in front lead to the forest that is known, and the text is added before those behind.
  simp only [Function.comp_apply, List.foldlM_append, place.forest, Option.bind_eq_bind,
    Option.bind_some, XmlForest.foldlM_textMark?, Option.bind_map, Option.bind_assoc]

/-- A comment at a place leaves the text in front of it, and goes through the text behind it. -/
theorem IsPlace.scanXml?_behind (file : String) {body after : List Char}
    (closed : ¬ "-->".toList <:+: body ++ "--".toList) (plain : '<' ∉ after) {rest : List Char}
    (begins : ∀ c ∈ rest.head?, c = '<') :
    scanXml? file (front ++ (run ++ (XmlMark.comment body ++ (after ++ rest)))) =
      (XmlMark.marks? rest).bind fun later =>
        (XmlReference.expand? (XmlMark.kept after)).bind fun text =>
          (later.foldlM XmlForest.add? ⟨inner.addText text :: outer, root⟩).bind
            (XmlForest.scan? file) := by
  obtain ⟨given, expanded, rfl⟩ := place.text
  rw [scanXml?_eq, place.reads, XmlMark.marks?_comment place.plain closed,
    XmlMark.marks?_append plain begins, Option.map_map, Option.map_map, Option.bind_map]
  -- What comes later is added to the text that the comment left open.
  refine Option.bind_congr fun later _ => ?_
  simp only [Function.comp_apply, List.foldlM_append, place.forest, Option.bind_eq_bind,
    Option.bind_some, XmlForest.foldlM_textMark?, Option.bind_map, Option.bind_assoc, expanded,
    Option.map_some]

/-- A comment says as much as nothing, if the white space around it goes as well. -/
theorem IsPlace.scanXml?_cut (file : String) {body after : List Char}
    (closed : ¬ "-->".toList <:+: body ++ "--".toList) (plain : '<' ∉ after) {rest : List Char}
    (begins : ∀ c ∈ rest.head?, c = '<') :
    scanXml? file (head ++ (XmlMark.comment body ++ (after ++ rest))) =
      scanXml? file (dropEndWhile XmlTag.isGap head ++ (after ++ rest).dropWhile XmlTag.isGap) := by
  obtain ⟨given, expanded, same⟩ := place.text
  -- The white space behind the comment ends at the next tag, if there is no text before.
  have started : (after ++ rest).dropWhile XmlTag.isGap = after.dropWhile XmlTag.isGap ++ rest := by
    have stops : rest.dropWhile XmlTag.isGap = rest := dropWhile_eq fun c first => by
      rw [begins c first]
      rfl
    rw [List.dropWhile_append, stops]
    split
    · next nothing => rw [List.isEmpty_iff.mp nothing, List.nil_append]
    · rfl
  have cutPlain : '<' ∉ dropEndWhile XmlTag.isGap run ++ after.dropWhile XmlTag.isGap := by
    rw [List.mem_append, not_or]
    exact ⟨fun member => place.plain ((dropEndWhile_isPrefix _ run).mem member),
      fun member => plain ((List.dropWhile_suffix _).mem member)⟩
  rw [place.whole, List.append_assoc, place.scanXml?_behind file closed plain begins,
    XmlMark.dropEndWhile_append place.ends, started, List.append_assoc,
    ← List.append_assoc (dropEndWhile _ run), place.scanXml?_run file cutPlain begins,
    XmlMark.kept_cut, XmlReference.expand?_append expanded]
  refine Option.bind_congr fun later _ => ?_
  rw [Option.bind_map, same]
  simp only [OpenElement.addText, List.append_assoc, Function.comp_def]

/-- A comment says nothing at all where the tokens stay apart without the white space around it. -/
theorem IsPlace.scanXml?_apart (file : String) {body after : List Char}
    (closed : ¬ "-->".toList <:+: body ++ "--".toList) (plain : '<' ∉ after) {rest : List Char}
    (begins : ∀ c ∈ rest.head?, c = '<')
    (apart : ∀ text, XmlReference.expand? (XmlMark.kept after) = some text → ∀ c ∈ text.head?,
      ∀ more, SqlToken.Reaches (c :: more) (inner.text ++ c :: more)) :
    scanXml? file (head ++ (XmlMark.comment body ++ (after ++ rest))) =
      scanXml? file (head ++ (after ++ rest)) := by
  obtain ⟨given, expanded, same⟩ := place.text
  have joinedPlain : '<' ∉ run ++ after := by
    rw [List.mem_append, not_or]
    exact ⟨place.plain, plain⟩
  -- Without the comment the white space between both texts is kept, so it is all that differs.
  obtain ⟨gap, gaps, blank, joined⟩ := XmlMark.kept_append run after
  rw [place.whole, List.append_assoc, place.scanXml?_behind file closed plain begins,
    List.append_assoc, ← List.append_assoc run, place.scanXml?_run file joinedPlain begins,
    joined, List.append_assoc, XmlReference.expand?_append expanded,
    XmlReference.expand?_append (XmlReference.expand?_gaps gaps), Option.map_map]
  refine Option.bind_congr fun later _ => ?_
  rw [Option.bind_map]
  refine Option.bind_congr fun text next => ?_
  -- White space at the end of an element is not kept, so text has to stand behind it.
  have empty : text = [] → gap = [] := by
    rintro rfl
    by_cases nothing : XmlMark.kept after = []
    · exact blank nothing
    · exact absurd next (XmlReference.expandFrom?_ne_nil (.inr nothing))
  rw [(alike_gap file inner outer root gaps (apart text next) empty).declares_eq later, same]
  simp only [OpenElement.addText, List.append_assoc, Function.comp_def]

end Place

/--
A comment inside of an element says as much as nothing, if the white space around it goes as well.

So a changelog declares the same with a comment as without it wherever the tokenizer, having read
the text of the element up to the comment, stands in front of what comes next without that white
space.
-/
theorem scanXml?_comment (file : String) {head body : List Char} (tail : List Char)
    {marks : List XmlMark} {inner : OpenElement} {outer : List OpenElement}
    {root : Option XmlElement} (read : XmlMark.ofText? head = some marks)
    (inside : marks.foldlM XmlForest.add? ⟨[], none⟩ = some ⟨inner :: outer, root⟩)
    (closed : ¬ "-->".toList <:+: body ++ "--".toList) :
    scanXml? file (head ++ (XmlMark.comment body ++ tail)) =
        scanXml? file (dropEndWhile XmlTag.isGap head ++ tail.dropWhile XmlTag.isGap) ∧
      ((∀ c ∈ (XmlMark.nextText tail).head?, ∀ more,
          SqlToken.Reaches (c :: more) (inner.text ++ c :: more)) →
        scanXml? file (head ++ (XmlMark.comment body ++ tail)) = scanXml? file (head ++ tail)) := by
  obtain ⟨front, run, earlier, before, place⟩ := exists_isPlace read inside
  -- The text behind the comment goes up to the next tag.
  have parted := @List.takeWhile_append_dropWhile _ (· != '<') tail
  have plain : '<' ∉ tail.takeWhile (· != '<') := fun member => by
    simpa using List.mem_takeWhile_imp member
  have begins : ∀ c ∈ (tail.dropWhile (· != '<')).head?, c = '<' := fun c first =>
    bne_eq_false_iff_eq.mp (head?_dropWhile tail c first)
  rw [XmlMark.nextText]
  generalize tail.takeWhile (· != '<') = after at parted plain ⊢
  generalize tail.dropWhile (· != '<') = rest at parted begins
  subst parted
  refine ⟨place.scanXml?_cut file closed plain begins, fun apart => ?_⟩
  refine place.scanXml?_apart file closed plain begins fun text next => ?_
  rwa [next, Option.getD_some] at apart

/-- A comment between two statements says nothing; one between two words makes one word of them. -/
theorem scanXml?_comment_words :
    let sql (text : List Char) : OpenElement := ⟨"sql".toList, [], text, []⟩
    let log : OpenElement := ⟨"databaseChangeLog".toList, [], [], []⟩
    let marks (text : List Char) : List XmlMark :=
      [.opening ⟨"databaseChangeLog".toList, []⟩, .opening ⟨"sql".toList, []⟩, .text text]
    let head := "<databaseChangeLog><sql>COMMIT;".toList
    let tail := " CREATE INDEX i ON t (a)</sql></databaseChangeLog>".toList
    let begun := "<databaseChangeLog><sql>CREATE ".toList
    let rest := " INDEX i ON t (a)</sql></databaseChangeLog>".toList
    (XmlMark.ofText? head = some (marks "COMMIT;".toList) ∧
      (marks "COMMIT;".toList).foldlM XmlForest.add? ⟨[], none⟩ =
        some ⟨[sql "COMMIT;".toList, log], none⟩ ∧
      ¬ "-->".toList <:+: " keys ".toList ++ "--".toList ∧
      (∀ c ∈ (XmlMark.nextText tail).head?, ∀ more,
        SqlToken.Reaches (c :: more) ("COMMIT;".toList ++ c :: more)) ∧
      scanXml? "log" (head ++ (XmlMark.comment " keys ".toList ++ tail)) =
        some ⟨[⟨"t", "a", "i", "log", false, false, 0⟩], []⟩) ∧
    XmlMark.ofText? begun = some (marks "CREATE".toList) ∧
      (marks "CREATE".toList).foldlM XmlForest.add? ⟨[], none⟩ =
        some ⟨[sql "CREATE".toList, log], none⟩ ∧
      scanXml? "log" (begun ++ (XmlMark.comment " keys ".toList ++ rest)) = some ⟨[], []⟩ ∧
      scanXml? "log" (begun ++ rest) = some ⟨[⟨"t", "a", "i", "log", false, false, 0⟩], []⟩ := by
  intro sql log marks head tail begun rest
  have read : XmlMark.ofText? head = some (marks "COMMIT;".toList) := by decide +kernel
  have inside : (marks "COMMIT;".toList).foldlM XmlForest.add? ⟨[], none⟩ =
      some ⟨[sql "COMMIT;".toList, log], none⟩ := by rfl
  have closed : ¬ "-->".toList <:+: " keys ".toList ++ "--".toList := by decide +kernel
  -- Both statements are read to their ends, whatever the text goes on with.
  have apart : ∀ c ∈ (XmlMark.nextText tail).head?, ∀ more,
      SqlToken.Reaches (c :: more) ("COMMIT;".toList ++ c :: more) := by
    intro c _ more
    exact .on (.on .here)
  have readBegun : XmlMark.ofText? begun = some (marks "CREATE".toList) := by
    decide +kernel
  have insideBegun : (marks "CREATE".toList).foldlM XmlForest.add? ⟨[], none⟩ =
      some ⟨[sql "CREATE".toList, log], none⟩ := by rfl
  refine ⟨⟨read, inside, closed, apart, ?_⟩, readBegun, insideBegun, ?_, by decide +kernel⟩
  · rw [(scanXml?_comment "log" tail read inside closed).2 apart]
    decide +kernel
  · rw [(scanXml?_comment "log" rest readBegun insideBegun closed).1]
    decide +kernel

end Changelog

end IndexAudit
