import IndexAudit.Proofs.Changelog.Reach

/-!
Files that a changelog refers to as SQL.

Such a file is read once, like any other, and its place decides in which format: the ending of its
name, and not the reference. So its statements count only where the ending says SQL.
-/

namespace IndexAudit

namespace Changelog

variable {tree : FileTree}

/-- The format in which a file is read is that of any path to it. -/
theorem scan?_target (wellFormed : tree.WellFormed) {target path : String} {place : Place}
    (led : tree.fileAt? target = some place) (read : tree.fileAt? path = some place)
    (text : List Char) :
    scan? path text =
      if Path.hasExtension target ["sql"] then some ⟨IndexStatement.scan text path, []⟩
      else if Path.hasExtension target ["xml"] then scanXml? path text
      else scanDocument? path text := by
  -- The format is told by the extension alone, which both paths have.
  have ending := FileTree.hasExtension_eq wellFormed read led
  simp only [scan?, ending]

/-- A visited file holds what any path to it reads. -/
theorem scanned_of_read? {path target : String} {file : ChangelogFile} {content : Content}
    (found : read? tree path = some file) (led : tree.fileAt? target = some file.place)
    (holds : tree.read? target = some content) :
    file.scanned = (scan? path content.lossyText).getD ⟨[], []⟩ := by
  simp only [read?, Option.bind_eq_bind, Option.bind_eq_some_iff, Option.some.injEq] at found
  obtain ⟨place, -, there, has, rfl⟩ := found
  obtain ⟨arrives, -⟩ := FileTree.fileAt?_eq_some.mp led
  simp only [FileTree.read?, arrives, Option.bind_eq_bind, Option.bind_some] at holds
  -- Both paths lead to one place, which holds one content.
  obtain rfl := Option.some.inj (has.symm.trans holds)
  rfl

/-- A reference that is resolved leads to a file that can be read. -/
theorem fileAt?_of_resolve? {base source path target : String} {isRelative : Bool}
    (resolved : resolve? base source path isRelative tree.isFile = some target) :
    ∃ place content, tree.fileAt? target = some place ∧ tree.read? target = some content := by
  -- Whatever the path is, what is taken is something wanted.
  have wanted : tree.isFile target = true := by
    simp only [resolve?] at resolved
    split at resolved
    case isTrue here =>
      rw [Bool.and_eq_true] at here
      exact Option.some.inj resolved ▸ here.2
    case isFalse => exact List.find?_some resolved
  obtain ⟨place, led, here⟩ := (Option.any_eq_true _ _).mp wanted
  obtain ⟨content, holds⟩ := Option.isSome_iff_exists.mp here
  exact ⟨place, content, FileTree.fileAt?_eq_some.mpr ⟨led, here⟩, by
    simp [FileTree.read?, led, holds]⟩

/-- The target of a reference to an SQL file is visited along with the file that refers to it. -/
theorem Traversal.visits_target {base root : String} {files : List ChangelogFile}
    (traversal : Traversal tree base [] [root] files) {file : ChangelogFile} (visited : file ∈ files)
    {reference : Reference} (refers : reference ∈ file.scanned.references)
    (isSql : reference.kind = .sqlFile) {target : String}
    (resolved : resolve? base file.path reference.path reference.isRelative tree.isFile =
      some target) {place : Place} (led : tree.fileAt? target = some place) :
    ∃ other ∈ files, other.place = place := by
  obtain ⟨other, found, rfl⟩ := read?_of_fileAt? led
  -- The target is among what the file refers to, and the traversal is closed under that.
  have next : target ∈ file.next tree base :=
    List.mem_flatMap.mpr ⟨reference, refers, by simp [targets, isSql, resolved]⟩
  simpa using traversal.closed file visited target next other found

/-- A file that is visited divides those that are, and no other one is at its place. -/
theorem Traversal.divides {base root : String} {files : List ChangelogFile}
    (traversal : Traversal tree base [] [root] files) {file : ChangelogFile}
    (visited : file ∈ files) :
    ∃ before after, files = before ++ file :: after ∧
      ∀ other ∈ before ++ after, other.place ≠ file.place := by
  obtain ⟨before, after, rfl⟩ := List.append_of_mem visited
  refine ⟨before, after, rfl, fun other member same => ?_⟩
  -- Places do not repeat, so the file occurs in the list only there.
  have once := traversal.once
  rw [List.map_append, List.map_cons, List.nodup_middle, List.nodup_cons, ← List.map_append] at once
  exact once.1 (List.mem_map.mpr ⟨other, member, same⟩)

/--
What a reference to an SQL file adds to the columns of a changelog.

The file that it leads to is read once. If the name of the file ends in `sql`, the columns are those
of its statements; else it is taken for a document, and adds nothing if it is none.
-/
theorem columns_sqlFile (wellFormed : tree.WellFormed) {path root : String}
    (starts : root? tree path = some root) {file : ChangelogFile} (visited : file ∈ files tree path)
    {reference : Reference} (refers : reference ∈ file.scanned.references)
    (isSql : reference.kind = .sqlFile) {target : String}
    (resolved : resolve? ((Path.parent? root).getD ".") file.path reference.path
      reference.isRelative tree.isFile = some target) :
    ∃ content found before after, tree.read? target = some content ∧
      tree.fileAt? target = some found.place ∧ tree.fileAt? found.path = some found.place ∧
      files tree path = before ++ found :: after ∧
      (∀ other ∈ before ++ after, other.place ≠ found.place) ∧
      indexedColumns tree path = columns before ++ found.scanned.columns ++ columns after ∧
      (Path.hasExtension target ["sql"] = true →
        found.scanned = ⟨IndexStatement.scan content.lossyText found.path, []⟩) ∧
      (Path.hasExtension target ["sql"] = false →
        found.scanned = (if Path.hasExtension target ["xml"] then
            scanXml? found.path content.lossyText
          else scanDocument? found.path content.lossyText).getD ⟨[], []⟩) := by
  obtain ⟨place, content, led, holds⟩ := fileAt?_of_resolve? resolved
  have traversal := files_traversal wellFormed starts
  obtain ⟨found, isFound, rfl⟩ := traversal.visits_target visited refers isSql resolved led
  obtain ⟨before, after, divided, apart⟩ := traversal.divides isFound
  have asRead := traversal.asRead found isFound
  -- What was read of the file is what its kind says.
  have scanned := scanned_of_read? asRead led holds
  rw [scan?_target wellFormed led (fileAt?_of_read? asRead)] at scanned
  -- The columns of the log are those of its files, one file after another.
  have total : indexedColumns tree path =
      columns before ++ found.scanned.columns ++ columns after := by
    change columns (files tree path) = _
    rw [divided, columns_append, columns_cons, List.append_assoc]
  exact ⟨content, found, before, after, holds, led, fileAt?_of_read? asRead, divided, apart, total,
    fun ending => by simpa [ending] using scanned, fun ending => by simpa [ending] using scanned⟩

/-- A changelog that refers to a file of statements that is not named for SQL. -/
def ordersTree : FileTree where
  files :=
    [(["db", "main.xml"],
      .text "<databaseChangeLog><sqlFile path='orders.ddl'/></databaseChangeLog>".toList),
    (["db", "orders.ddl"], .text "CREATE INDEX i ON orders (state);".toList)]
  directories := [["db"]]
  current := []

/-- The changelog, with what it refers to. -/
def ordersFile : ChangelogFile :=
  ⟨"/db/main.xml", ["db", "main.xml"], ⟨[], [⟨.sqlFile, "orders.ddl", false⟩]⟩⟩

/-- The index that is made by the statements is not found. -/
theorem columns_sqlFile_orders :
    ordersTree.WellFormed ∧ root? ordersTree "/db/main.xml" = some "/db/main.xml" ∧
    ordersFile ∈ files ordersTree "/db/main.xml" ∧
    (ordersTree.read? "/db/orders.ddl").map (fun content =>
        IndexStatement.scan content.lossyText "/db/orders.ddl") =
      some [⟨"orders", "state", "i", "/db/orders.ddl", false, false, 0⟩] ∧
    ∃ found before after, ordersTree.fileAt? "/db/orders.ddl" = some found.place ∧
      files ordersTree "/db/main.xml" = before ++ found :: after ∧ found.scanned = ⟨[], []⟩ := by
  have wellFormed : ordersTree.WellFormed := by constructor <;> decide
  have root : root? ordersTree "/db/main.xml" = some "/db/main.xml" := by decide +kernel
  have main : read? ordersTree "/db/main.xml" = some ordersFile := by decide +kernel
  have visited : ordersFile ∈ files ordersTree "/db/main.xml" := by
    rw [files, root]
    simp [walk_cons, main, show ordersFile.place ∈ ordersTree.files.map (·.1) by decide]
  obtain ⟨content, found, before, after, holds, led, asRead, divided, -, -, -, document⟩ :=
    columns_sqlFile wellFormed root visited List.mem_cons_self rfl
      (show _ = some "/db/orders.ddl" by decide +kernel)
  refine ⟨wellFormed, root, visited, by decide +kernel, found, before, after, led, divided, ?_⟩
  rw [document (by decide +kernel), if_neg (by decide +kernel)]
  obtain rfl : Content.text "CREATE INDEX i ON orders (state);".toList = content :=
    Option.some.inj ((show _ = _ by decide +kernel).trans holds)
  -- The statements are a plain text in YAML, and not a changelog.
  have json := FileTree.hasExtension_eq wellFormed asRead led ["json"]
  have log : ((YamlValue.ofText? "CREATE INDEX i ON orders (state);".toList).bind
      (·.get? "databaseChangeLog")).isNone = true := by decide +kernel
  rw [Option.isNone_iff_eq_none, Option.bind_eq_none_iff] at log
  rw [scanDocument?, document?, json, if_neg (by decide +kernel), Content.lossyText,
    Option.bind_eq_none_iff.mpr fun value read => ?_]
  · rfl
  · rw [YamlValue.scanChangelog?, log value read, Option.map_none]

end Changelog

end IndexAudit
