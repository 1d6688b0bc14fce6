import IndexAudit.Changelog.Document
import IndexAudit.Proofs.Changelog.Walk
import IndexAudit.Proofs.Files.Place

/-!
References lead to the same places, whatever path the changelog they stand in is read by.

The one exception is a reference without a name to a whole directory, which stands for that of the
changelog only if the changelog is read by a path with a directory in it.
-/

namespace IndexAudit

/-! What a changelog refers to. -/

/-- An XML document refers to the same files, whatever its own is. -/
theorem XmlElement.scanChangelog?_references (first second : String) (document : XmlElement) :
    (document.scanChangelog? first).map (·.references) =
      (document.scanChangelog? second).map (·.references) := by
  -- The file is only told by the columns, and what the items refer to does not name it.
  unfold scanChangelog?
  split <;> rfl

/-- So does a document in YAML or JSON. -/
theorem YamlValue.scanChangelog?_references (first second : String) (document : YamlValue) :
    (document.scanChangelog? first).map (·.references) =
      (document.scanChangelog? second).map (·.references) := by
  -- As in XML, the file is only told by the columns.
  unfold scanChangelog?
  cases document.get? "databaseChangeLog" <;> rfl

namespace Changelog

/-- By paths of one extension, a text is the same kind of changelog with the same references. -/
theorem scan?_references {first second : String}
    (same : ∀ extensions, Path.hasExtension first extensions = Path.hasExtension second extensions)
    (text : List Char) :
    (scan? first text).map (·.references) = (scan? second text).map (·.references) := by
  -- The extension decides the format, and the document of that format does not know the path.
  unfold scan?
  rw [same ["sql"], same ["xml"]]
  split
  · rfl
  split
  · unfold scanXml?
    cases XmlElement.ofText? text with
    | none => rfl
    | some document => exact document.scanChangelog?_references first second
  · have document : document? first text = document? second text := by
      rw [document?, document?, same ["json"]]
    unfold scanDocument?
    rw [document]
    cases document? second text with
    | none => rfl
    | some document => exact document.scanChangelog?_references first second

end Changelog

/-! Where references lead. -/

/-- The path of a reference as it is put under a directory. -/
def Reference.below (reference : Reference) : String :=
  String.ofList ((Changelog.referencePath reference.path).dropWhile (· = '/'))

namespace Changelog

variable {tree : FileTree} (wellFormed : tree.WellFormed)

/-- A reference that is put under a directory is not absolute. -/
theorem isAbsolute_below (reference : Reference) : Path.isAbsolute reference.below = false := by
  -- The slashes it begins with are taken off.
  have first := List.head?_dropWhile_not (· = '/') (referencePath reference.path)
  rw [Reference.below, Path.isAbsolute, String.toList_ofList]
  cases begins : ((referencePath reference.path).dropWhile (· = '/')).head? with
  | none => rfl
  | some character => simpa [begins] using first

/-- A reference leads to its path as it is written, or to a candidate for what is below. -/
theorem resolve?_reference (base source : String) (reference : Reference)
    (wanted : String → Bool) :
    resolve? base source reference.path reference.isRelative wanted =
      if Path.isAbsolute (String.ofList (referencePath reference.path)) &&
          wanted (String.ofList (referencePath reference.path)) then
        some (String.ofList (referencePath reference.path))
      else (candidates base source reference.below reference.isRelative).find? wanted :=
  -- Both sides are the same search by definition, once candidates are named.
  rfl

/-- A file that is read by a path is the one the path leads to. -/
theorem fileAt?_of_read? {path : String} {file : ChangelogFile}
    (found : read? tree path = some file) : tree.fileAt? path = some file.place := by
  -- Reading looks the place up first, and takes the content of the file there.
  simp only [read?, Option.bind_eq_bind, Option.bind_eq_some_iff, Option.some.injEq] at found
  obtain ⟨place, led, content, has, rfl⟩ := found
  exact FileTree.fileAt?_eq_some.mpr ⟨led, by simp [FileTree.hasFile, has]⟩

include wellFormed

/-- A changelog has the same references by whatever path it is read. -/
theorem references_eq {first second : String} {file other : ChangelogFile}
    (found : read? tree first = some file) (again : read? tree second = some other)
    (same : file.place = other.place) : file.scanned.references = other.scanned.references := by
  -- Both paths have the extension that the name of the file has, and lead to the same text.
  have ending := FileTree.hasExtension_eq wellFormed (fileAt?_of_read? found)
    (same ▸ fileAt?_of_read? again)
  simp only [read?, Option.bind_eq_bind, Option.bind_eq_some_iff, Option.some.injEq] at found again
  obtain ⟨place, -, content, has, rfl⟩ := found
  obtain ⟨otherPlace, -, otherContent, otherHas, rfl⟩ := again
  obtain rfl : place = otherPlace := same
  obtain rfl := Option.some.inj (has.symm.trans otherHas)
  have scanned := scan?_references ending content.lossyText
  simp only [scanFile]
  cases one : scan? first content.lossyText <;> cases two : scan? second content.lossyText <;>
    simp_all

/-- No name beside a file leads to a file. -/
theorem not_isFile_join_empty (base : String) : tree.isFile (Path.join base "") = false := by
  by_contra isFile
  obtain ⟨place, led, present⟩ := (Option.any_eq_true _ _).mp (Bool.not_eq_false _ ▸ isFile)
  have led := FileTree.fileAt?_eq_some.mpr ⟨led, present⟩
  obtain ⟨before, name, -, cut, moves, -⟩ := FileTree.segments_of_fileAt? wellFormed led
  by_cases given : base = ""
  · -- There is no path at all.
    rw [given] at led
    exact FileTree.ne_empty_of_place? (FileTree.fileAt?_eq_some.mp led).1 rfl
  · -- The path ends in a slash, and the segment behind that stays put.
    have ends : ∃ front, Path.segments (Path.join base "") = front ++ [[]] := by
      by_cases slash : base.toList.getLast? = some '/'
      · obtain ⟨outer, split⟩ := List.getLast?_eq_some_iff.mp slash
        exact ⟨_, (Path.segments_join_slash split rfl).2⟩
      · exact ⟨_, Path.segments_join given rfl slash⟩
    obtain ⟨front, ends⟩ := ends
    obtain ⟨-, same⟩ := List.append_inj' (cut.symm.trans ends) rfl
    obtain rfl : name = [] := by simpa using same
    exact absurd moves (by decide)

/-- Beside a file a name leads to the same place, whatever path the file has. -/
theorem find?_beside (reference : Reference) {first second : String} {wanted : String → Bool}
    (same : tree.fileAt? first = tree.fileAt? second) (found : (tree.fileAt? first).isSome)
    (together : ∀ path other, tree.place? path = tree.place? other → wanted path = wanted other)
    (named : reference.below ≠ "" ∨ wanted = tree.isFile) :
    ([Path.join ((Path.parent? first).getD ".") reference.below].find? wanted).map tree.place? =
      ([Path.join ((Path.parent? second).getD ".") reference.below].find? wanted).map
        tree.place? := by
  by_cases given : reference.below = ""
  · -- Without a name, no file is found by either path.
    obtain rfl := named.resolve_left (not_not.mpr given)
    simp [given, not_isFile_join_empty wellFormed]
  · obtain ⟨place, led⟩ := Option.isSome_iff_exists.mp found
    have relative := isAbsolute_below reference
    have beside := (FileTree.place?_beside wellFormed led given relative).trans
      (FileTree.place?_beside wellFormed (same ▸ led) given relative).symm
    simp only [List.find?_cons, List.find?_nil, together _ _ beside]
    split <;> simp [beside]

omit wellFormed in
/-- A reference leads to the same place from two files if it does so beside them. -/
theorem resolve?_place (base : String) {first second : String} {reference : Reference}
    {wanted : String → Bool}
    (beside :
      ([Path.join ((Path.parent? first).getD ".") reference.below].find? wanted).map tree.place? =
        ([Path.join ((Path.parent? second).getD ".") reference.below].find? wanted).map
          tree.place?) :
    (resolve? base first reference.path reference.isRelative wanted).map tree.place? =
      (resolve? base second reference.path reference.isRelative wanted).map tree.place? := by
  -- The candidates are the same but for the last one, which is beside the changelog.
  rw [resolve?_reference, resolve?_reference]
  split
  · rfl
  · unfold candidates
    cases reference.isRelative with
    | true => exact beside
    | false =>
      -- The directories around the first changelog are tried first, with the same outcome.
      simp only [Bool.false_eq_true, if_false, List.find?_append]
      cases ((Path.ancestors base).map (Path.join · reference.below)).find? wanted with
      | some path => rw [Option.some_or, Option.some_or]
      | none =>
        rw [Option.none_or, Option.none_or]
        exact beside

/-- A reference leads to files at the same places in the same order. -/
theorem targets_places (base : String) {first second : String} {reference : Reference}
    (same : tree.fileAt? first = tree.fileAt? second) (found : (tree.fileAt? first).isSome)
    (named : reference.kind = .includeAll → reference.below ≠ "") :
    (targets tree base first reference).map tree.place? =
      (targets tree base second reference).map tree.place? := by
  have files := resolve?_place base (find?_beside wellFormed reference same found
    (fun path other led => show tree.isFile path = tree.isFile other by
      rw [FileTree.isFile, FileTree.isFile, led]) (.inr rfl))
  unfold targets
  split
  case h_1 | h_2 =>
    rw [← Option.toList_map, ← Option.toList_map]
    exact congrArg Option.toList files
  case h_3 isAll =>
    -- What a reference to a directory leads to depends on the place of the directory alone.
    have directories := resolve?_place base (find?_beside wellFormed reference same found
      (fun path other led => show tree.isDirectory path = tree.isDirectory other by
        rw [FileTree.isDirectory, FileTree.isDirectory, led]) (.inl (named isAll)))
    cases one : resolve? base first reference.path reference.isRelative tree.isDirectory <;>
      cases two : resolve? base second reference.path reference.isRelative tree.isDirectory
    case none.none => rfl
    case none.some => simp [one, two] at directories
    case some.none => simp [one, two] at directories
    case some.some =>
      rw [one, two, Option.map_some, Option.map_some, Option.some.injEq] at directories
      exact FileTree.place?_findFiles wellFormed directories extensions

end Changelog

end IndexAudit
