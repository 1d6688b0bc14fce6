import IndexAudit.Toml.Statement

/-! The table of a TOML document. -/

namespace IndexAudit

/-- The entries of a document so far, and the keys of the table that entries are added to. -/
structure TomlDocument where
  entries : TomlEntries
  section_ : List String

namespace TomlDocument

/-- The document after one more statement, unless that names again what it may not. -/
def add? (document : TomlDocument) : TomlStatement → Option TomlDocument
  | .table path key =>
    (TomlEntries.openTable? path key document.entries).map fun entries =>
      ⟨entries, path ++ [key]⟩
  | .tables path key =>
    (TomlEntries.openTables? path key document.entries).map fun entries =>
      ⟨entries, path ++ [key]⟩
  | .entry path key value =>
    (TomlEntries.descend? TomlEntries.opensToHeaders .header
      (TomlEntries.assign? path key value) .header document.section_ document.entries).map
      fun entries => { document with entries := entries }

end TomlDocument

namespace TomlEntries

/-- The entries of a document, which fail to come where the text is malformed. -/
def ofText? (text : List Char) : Option TomlEntries := do
  let statements ← TomlStatement.ofText? text
  let document ← statements.foldlM TomlDocument.add? ⟨[], []⟩
  some document.entries

end TomlEntries

end IndexAudit
