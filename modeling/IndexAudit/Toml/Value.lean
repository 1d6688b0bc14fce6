/-!
Values of TOML documents, and the tables that statements build up.

Numbers and points in time are told apart from other values, and nothing more.
-/

namespace IndexAudit

/-- How a table came to be, which decides what may be added to it. -/
inductive TomlTableKind where
  /-- A header names it. -/
  | header
  /-- The header of a table inside it names it. -/
  | path
  /-- Dotted keys name it. -/
  | dotted
  /-- It stands between braces, and is complete. -/
  | inline
deriving Repr, DecidableEq

/-- A value of a document. -/
inductive TomlValue where
  | string (text : String)
  | bool (value : Bool)
  | number
  | dateTime
  | array (items : List TomlValue)
  | table (kind : TomlTableKind) (entries : List (String × TomlValue))
  /-- Tables under one header that repeats, the latest first. -/
  | tables (latestFirst : List (List (String × TomlValue)))
deriving Repr

/-- The entries of a table, in the order in which their keys come first. -/
abbrev TomlEntries := List (String × TomlValue)

namespace TomlEntries

/-- The entries with a new value under a key, which is made from the value there is. -/
def update? (key : String) (change : Option TomlValue → Option TomlValue) :
    TomlEntries → Option TomlEntries
  | [] => (change none).map fun value => [(key, value)]
  | entry :: rest =>
    if entry.1 = key then (change (some entry.2)).map fun value => (key, value) :: rest
    else (update? key change rest).map (entry :: ·)

/--
The entries with a change made to those of the table that a path of keys leads to.

Tables on the way are made where they are missing, and must be `open_` where they are not; a table
under a header that repeats is the latest one.
-/
def descend? (open_ : TomlTableKind → Bool) (made : TomlTableKind)
    (change : TomlTableKind → TomlEntries → Option TomlEntries) (kind : TomlTableKind) :
    List String → TomlEntries → Option TomlEntries
  | [], entries => change kind entries
  | key :: path, entries =>
    update? key
      (fun found =>
        match found with
        | none => (descend? open_ made change made path []).map (.table made)
        | some (.table inner below) =>
          if open_ inner then (descend? open_ made change inner path below).map (.table inner)
          else none
        | some (.tables (latest :: earlier)) =>
          (descend? open_ made change .header path latest).map fun below =>
            .tables (below :: earlier)
        | _ => none)
      entries

/-- The entries with a value under a key that has none yet. -/
def insert? (key : String) (value : TomlValue) (entries : TomlEntries) : Option TomlEntries :=
  update? key (fun found => if found.isSome then none else some value) entries

/-- Whether dotted keys may go through a table. -/
def opensToKeys (kind : TomlTableKind) : Bool :=
  kind == .path || kind == .dotted

/-- Whether headers may go through a table. -/
def opensToHeaders (kind : TomlTableKind) : Bool :=
  kind != .inline

/-- The entries of a table with a value under a dotted key: the keys on the way and the last one. -/
def assign? (path : List String) (key : String) (value : TomlValue) (kind : TomlTableKind)
    (entries : TomlEntries) : Option TomlEntries :=
  descend? opensToKeys .dotted
    (fun reached below =>
      -- A dotted key adds only to a table that dotted keys made.
      if reached == .dotted || path.isEmpty then insert? key value below else none)
    kind path entries

/-- The entries of a document after the header of a table: the keys on the way and its own. -/
def openTable? (path : List String) (key : String) (entries : TomlEntries) : Option TomlEntries :=
  descend? opensToHeaders .path
    (fun _ => update? key fun found =>
      match found with
      | none => some (.table .header [])
      -- A table that only headers inside it have named may still get its own header.
      | some (.table .path below) => some (.table .header below)
      | _ => none)
    .header path entries

/-- The entries of a document after the header of one of several tables. -/
def openTables? (path : List String) (key : String) (entries : TomlEntries) :
    Option TomlEntries :=
  descend? opensToHeaders .path
    (fun _ => update? key fun found =>
      match found with
      | none => some (.tables [[]])
      -- A repeated header begins a new table.
      | some (.tables earlier) => some (.tables ([] :: earlier))
      | _ => none)
    .header path entries

end TomlEntries

end IndexAudit
