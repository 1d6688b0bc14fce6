import IndexAudit.Proofs.Query.Scope
import IndexAudit.Proofs.Sql.LetterCase

/-!
Native queries in different letter cases.

The columns that a query writes are those of the query in lower case, and so are the tables in
scope. Only how many tables there are can differ, where one is spelled in several ways.
-/

namespace IndexAudit

open SqlToken

section Tokens

variable (tokens : List SqlToken)

namespace Jpql

/-- A path is read in either case. -/
theorem readPath_lowered :
    readPath (tokens.map lowered) =
      ((readPath tokens).1.map String.toLower, (readPath tokens).2.map lowered) := by
  -- A dot has no letters, so the path goes on in either case or in neither.
  fun_induction readPath tokens with
  | case1 =>
    rw [List.map_nil, readPath]
    rfl
  | case2 token rest nameless =>
    rw [readPath_nameless (by simp [nameless])]
    rfl
  | case3 token name named after following ih =>
    have lower : token.lowered.ident? = some name.toLower := by simp [named]
    have dot : lowered (.punctuation '.') = .punctuation '.' := rfl
    rw [List.map_cons, List.map_cons, dot, readPath_dot lower, ih]
    rfl
  | case4 token rest name named noDot =>
    have lower : token.lowered.ident? = some name.toLower := by simp [named]
    have ends : (rest.map lowered).head? ≠ some (.punctuation '.') := by
      rw [Ne, head?_lowered _ rfl]
      intro first
      obtain ⟨after, rfl⟩ := List.head?_eq_some_iff.mp first
      exact noDot after rfl
    rw [List.map_cons, readPath_single lower ends]
    rfl

/-- An alias is read in either case. -/
theorem readAlias_lowered (words : List String) :
    readAlias words (tokens.map lowered) =
      ((readAlias words tokens).1, (readAlias words tokens).2.map lowered) := by
  rw [readAlias, readAlias, skip_lowered]
  cases skip "as" tokens with
  | nil => rfl
  | cons token rest =>
    cases named : token.ident? with
    | none => simp [named]
    | some name =>
      -- Names are compared in lower case already, so the test comes out the same.
      by_cases listed : lower name ∈ words <;> simp [named, listed]

end Jpql

namespace Native

/-- Tables in scope, with the ASCII letters of each in lower case. -/
def loweredTables (tables : Tables) : Tables :=
  tables.map fun entry => (entry.1, entry.2.toLower)

/-- The names of a table are lowered with it. -/
theorem loweredTables_declared (table : String) (known : Option String) (tables : Tables) :
    (known.map fun name => (name, table.toLower)).toList ++
        (lower table, table.toLower) :: loweredTables tables =
      loweredTables ((known.map fun name => (name, table)).toList ++
        (lower table, table) :: tables) := by
  -- The table has its own entry, and another one if it has an alias.
  cases known <;> simp [loweredTables]

/-- The tables that a query brings into scope are lowered with it. -/
theorem bind_lowered (declaring : Bool) (tables : Tables) :
    bind declaring (loweredTables tables) (tokens.map lowered) =
      loweredTables (bind declaring tables tokens) := by
  have isLast {tokens : List SqlToken} {table : String}
      (found : (Jpql.readPath tokens).1.getLast? = some table) :
      (Jpql.readPath (tokens.map lowered)).1.getLast? = some table.toLower := by
    rw [Jpql.readPath_lowered, List.getLast?_map, found]
    rfl
  -- The query in lower case goes through the same steps, each in a lowered scope.
  induction declaring, tables, tokens using bind_rec with
  | ends tables => rw [List.map_nil, bind_nil, bind_nil]
  | passes tables token rest ih =>
    have introduces : Jpql.introduces token.lowered = Jpql.introduces token := by
      simp [Jpql.introduces]
    rw [List.map_cons, bind_cons, introduces, ih, bind_cons]
  | pathless tables tokens none ih =>
    have pathless : (Jpql.readPath (tokens.map lowered)).1.getLast? = Option.none := by
      rw [Jpql.readPath_lowered, List.getLast?_map, none]
      rfl
    rw [bind_pathless _ pathless, bind_pathless _ none, ih]
  | listed tables tokens table last isListed ih =>
    rw [bind_path _ (isLast last), lower_toLower, if_pos isListed, bind_path _ last,
      if_pos isListed, Jpql.readPath_lowered, ih]
  | declares tables tokens table last free named scope commaCase lastCase =>
    obtain ⟨behindComma, behind⟩ := bind_declares tables last free
    obtain ⟨loweredComma, loweredLast⟩ :=
      bind_declares (loweredTables tables) (isLast last) (by rwa [lower_toLower])
    rw [Jpql.readPath_lowered, Jpql.readAlias_lowered, lower_toLower,
      loweredTables_declared] at loweredComma loweredLast
    by_cases comma : named.2.head? = some (.punctuation ',')
    · obtain ⟨rest, same⟩ := List.head?_eq_some_iff.mp comma
      rw [behindComma rest same, ← commaCase rest same]
      exact loweredComma (rest.map lowered) (by rw [same]; rfl)
    · rw [behind comma, ← lastCase comma]
      exact loweredLast (by rwa [Ne, head?_lowered _ rfl])

/-- A written column with the ASCII letters of its names in lower case. -/
def WrittenColumn.lowered (written : WrittenColumn) : WrittenColumn :=
  ⟨written.qualifier.map String.toLower, written.column.toLower⟩

/-- A column is read in either case. -/
theorem readColumn?_lowered :
    readColumn? (tokens.map lowered) =
      (readColumn? tokens).map fun read => (read.1.lowered, read.2.map lowered) := by
  -- Without a dot behind it, the first name is the column itself.
  have unqualified (first : SqlToken) (rest : List SqlToken)
      (ends : rest.head? ≠ some (.punctuation '.')) :
      readColumn? (first :: rest) = first.ident?.map fun column => (⟨none, column⟩, rest) := by
    rw [readColumn?.eq_def]
    split
    · rename_i same
      exact absurd (congrArg List.head? (List.cons.inj same).2) ends
    · rename_i same
      obtain ⟨rfl, rfl⟩ := List.cons.inj same
      rw [if_neg ends]
    · contradiction
  rcases tokens with - | ⟨first, rest⟩
  · rfl
  by_cases dotted : rest.head? = some (.punctuation '.')
  · obtain ⟨after, rfl⟩ := List.head?_eq_some_iff.mp dotted
    have dot : lowered (.punctuation '.') = .punctuation '.' := rfl
    cases after with
    | nil => rfl
    | cons second after =>
      simp only [List.map_cons, dot, readColumn?, ident?_lowered]
      cases first.ident? <;> cases second.ident? <;> rfl
  · have ends : (rest.map lowered).head? ≠ some (.punctuation '.') := by
      rwa [Ne, head?_lowered _ rfl]
    rw [List.map_cons, unqualified _ _ ends, unqualified _ _ dotted, ident?_lowered]
    cases first.ident? <;> rfl

/-- An operator begins in either case. -/
theorem startsOperator_lowered : startsOperator (tokens.map lowered) = startsOperator tokens := by
  cases tokens with
  | nil => rfl
  | cons token rest =>
    -- Lowering keeps operators and does not change which keyword a word is.
    have comparison (text : String) :
        (token.lowered == .operator text) = (token == .operator text) :=
      Bool.eq_iff_iff.mpr (by simpa using lowered_eq_iff token rfl)
    have next (words : List String) :
        (rest.map lowered).head?.any (·.isOneOf words) = rest.head?.any (·.isOneOf words) := by
      cases rest <;> simp
    simp only [List.map_cons, startsOperator, comparison, isOneOf_lowered, isKeyword_lowered, next]

/-- The columns of conditions are lowered with the query. -/
theorem conditionColumns_lowered :
    conditionColumns (tokens.map lowered) =
      (conditionColumns tokens).map WrittenColumn.lowered := by
  induction tokens with
  | nil => rfl
  | cons token rest ih =>
    have opened (token : SqlToken) :
        (token.lowered == .punctuation '(') = (token == .punctuation '(') :=
      Bool.eq_iff_iff.mpr (by simpa using lowered_eq_iff token rfl)
    -- The brackets that are passed over are the same ones.
    have inside : (rest.map lowered).dropWhile (· == .punctuation '(') =
        (rest.dropWhile (· == .punctuation '(')).map lowered := by
      rw [List.dropWhile_map]
      exact congrArg _ (congrArg (List.dropWhile · rest) (funext opened))
    simp only [List.map_cons, conditionColumns, isOneOf_lowered, inside, readColumn?_lowered, ih,
      List.map_append]
    congr 1
    split
    · cases readColumn? (rest.dropWhile (· == .punctuation '(')) with
      | none => rfl
      | some read =>
        simp only [Option.map_some, startsOperator_lowered]
        split <;> rfl
    · rfl

/-- A clause is as long in either case. -/
theorem clauseLength_lowered (depth : Nat) :
    clauseLength depth (tokens.map lowered) = clauseLength depth tokens := by
  induction tokens generalizing depth with
  | nil => rfl
  | cons token rest ih =>
    -- What ends a clause and what nests in it are marks and keywords.
    have semicolon : token.lowered = .punctuation ';' ↔ token = .punctuation ';' :=
      lowered_eq_iff token rfl
    simp only [List.map_cons, clauseLength, nest_lowered, semicolon, isOneOf_lowered, ih]

/-- The column in front of a comparison is lowered with the query. -/
theorem columnBefore?_lowered (before : List SqlToken) :
    columnBefore? (before.map lowered) = (columnBefore? before).map WrittenColumn.lowered := by
  -- In front of a name and a dot, the qualifier is the one name more.
  have qualified (column dot first : SqlToken) (more : List SqlToken) :
      columnBefore? (column :: dot :: first :: more) = column.ident?.map fun text =>
        ⟨if dot = .punctuation '.' then first.ident? else none, text⟩ := by
    rw [columnBefore?.eq_def]
    cases named : column.ident? with
    | none => simp [named]
    | some text => by_cases isDot : dot = .punctuation '.' <;> simp [named, isDot]
  rcases before with - | ⟨column, - | ⟨dot, - | ⟨first, more⟩⟩⟩
  · rfl
  · cases column <;> rfl
  · cases column <;> simp [columnBefore?, lowered, ident?, WrittenColumn.lowered]
  · have isDot : dot.lowered = .punctuation '.' ↔ dot = .punctuation '.' := lowered_eq_iff dot rfl
    simp only [List.map_cons, qualified, isDot, ident?_lowered]
    cases column.ident? with
    | none => rfl
    | some text =>
      simp only [Option.map_some, WrittenColumn.lowered]
      split <;> rfl

/-- The columns of equalities are lowered with the query. -/
theorem equalityColumns_lowered (before : List SqlToken) (left : Nat) :
    equalityColumns (before.map lowered) left (tokens.map lowered) =
      (equalityColumns before left tokens).map WrittenColumn.lowered := by
  induction tokens generalizing before left with
  | nil => rfl
  | cons token rest ih =>
    have equals : token.lowered = .operator "=" ↔ token = .operator "=" := lowered_eq_iff token rfl
    have later (left : Nat) := ih (token :: before) left
    rw [List.map_cons] at later
    -- Where a clause begins and how long it is, is told in either case.
    cases left with
    | zero =>
      simp only [List.map_cons, equalityColumns, isKeyword_lowered, clauseLength_lowered, later]
    | succ left =>
      simp only [List.map_cons, equalityColumns, equals, later, columnBefore?_lowered,
        readColumn?_lowered, List.map_append]
      split
      · cases columnBefore? before <;> cases readColumn? rest <;> rfl
      · rfl

/-- The columns that joins compare are lowered with the query. -/
theorem joinColumns_lowered :
    joinColumns (tokens.map lowered) = (joinColumns tokens).map WrittenColumn.lowered := by
  -- The column that is left out is told by its name in any letter case.
  have equalities := equalityColumns_lowered tokens [] 0
  rw [List.map_nil] at equalities
  rw [joinColumns, joinColumns, equalities, List.filter_map]
  congr 2
  funext written
  simp [WrittenColumn.lowered]

/-- A column to order by is lowered with the query. -/
theorem sortColumn?_lowered :
    sortColumn? (tokens.map lowered) = (sortColumn? tokens).map WrittenColumn.lowered := by
  -- Behind the column only keywords may stand, which are the same in either case.
  have ends (after : List SqlToken) (words : List String) :
      (after.map lowered).all (·.isOneOf words) = after.all (·.isOneOf words) := by
    simp [List.all_map, Function.comp_def]
  rw [sortColumn?, sortColumn?, readColumn?_lowered]
  cases readColumn? tokens with
  | none => rfl
  | some read =>
    simp only [Option.map_some, Option.bind_eq_bind, Option.bind_some, ends]
    split <;> rfl

/-- The columns that results are ordered by are lowered with the query. -/
theorem orderColumns_lowered (left : Nat) :
    orderColumns left (tokens.map lowered) =
      (orderColumns left tokens).map WrittenColumn.lowered := by
  induction tokens generalizing left with
  | nil => rfl
  | cons token rest ih =>
    cases left with
    | succ left => exact ih left
    | zero =>
      have next : (rest.map lowered).head?.any (·.isKeyword "by") =
          rest.head?.any (·.isKeyword "by") := by
        cases rest <;> simp
      -- The word behind ORDER is the first of the clause, which is split at commas.
      have clause : (rest.map lowered).drop 1 = (rest.drop 1).map lowered := List.map_drop.symm
      simp only [List.map_cons, orderColumns, isKeyword_lowered, next, clause,
        clauseLength_lowered, ih, ← List.map_take, splitCommas_lowered, List.filterMap_map]
      split
      · rw [List.map_append, List.map_filterMap]
        congr 2
        exact funext sortColumn?_lowered
      · rfl

end Native

end Tokens

namespace Native

/-- A name is bound to the same table in either case. -/
theorem lookup_lowered (tables : Tables) (key : String) :
    (loweredTables tables).lookup key = (tables.lookup key).map String.toLower := by
  -- The keys are those of before, and only the tables behind them are lowered.
  induction tables with
  | nil => rfl
  | cons entry tables ih =>
    change List.lookup key ((entry.1, entry.2.toLower) :: loweredTables tables) = _
    rw [List.lookup_cons, List.lookup_cons, ih]
    split <;> rfl

/-- One table is in scope in several spellings, and no other table is. -/
structure IsSpelledApart (tables : Tables) : Prop where
  several : ∃ table ∈ distinctTables tables, ∃ other ∈ distinctTables tables, table ≠ other
  one : ∀ table ∈ distinctTables tables, ∀ other ∈ distinctTables tables,
    table.toLower = other.toLower

/-- The tables in scope of a query in lower case are those of the query in lower case. -/
theorem mem_distinctTables_lowered {tables : Tables} {table : String} :
    table ∈ distinctTables (loweredTables tables) ↔
      ∃ other ∈ distinctTables tables, other.toLower = table := by
  -- A table is in scope if some key leads to it, and keys are the same.
  simp only [mem_distinctTables_iff, lookup_lowered, Option.map_eq_some_iff]
  constructor
  · rintro ⟨key, other, found, same⟩
    exact ⟨other, ⟨key, found⟩, same⟩
  · rintro ⟨other, ⟨key, found⟩, same⟩
    exact ⟨key, other, found, same⟩

/-- The one table of several spellings is the only one in scope of the query in lower case. -/
theorem IsSpelledApart.tableOf?_lowered {tables : Tables} (apart : IsSpelledApart tables)
    (entityTable : String) (written : WrittenColumn) :
    ∃ table ∈ distinctTables tables, tableOf? (loweredTables tables) entityTable written.lowered =
      written.qualifier.elim (some table.toLower) fun name =>
        (tables.lookup (lower name)).map String.toLower := by
  obtain ⟨table, isTable, -⟩ := apart.several
  -- In lower case all tables in scope have one name, so the query has a single table.
  have only : ∀ other ∈ distinctTables (loweredTables tables), other = table.toLower := by
    intro other listed
    obtain ⟨spelled, isSpelled, rfl⟩ := mem_distinctTables_lowered.mp listed
    exact apart.one spelled isSpelled table isTable
  refine ⟨table, isTable, ?_⟩
  rw [tableOf?_only _ _ only (mem_distinctTables_lowered.mpr ⟨table, isTable, rfl⟩)]
  cases qualified : written.qualifier <;> simp [WrittenColumn.lowered, qualified, lookup_lowered]

/-- Unless one table has several spellings, a column belongs to the same table in either case. -/
theorem tableOf?_lowered {tables : Tables} (notApart : ¬ IsSpelledApart tables)
    (entityTable : String) (written : WrittenColumn) :
    (tableOf? (loweredTables tables) entityTable written.lowered).map lower =
      (tableOf? tables entityTable written).map lower := by
  by_cases several : ∃ table ∈ distinctTables tables, ∃ other ∈ distinctTables tables,
      table.toLower ≠ other.toLower
  -- Several tables in lower case too: both sides need a qualifier.
  · obtain ⟨table, isTable, other, isOther, apart⟩ := several
    rw [tableOf?_among _ _ isTable isOther fun same => apart (same ▸ rfl),
      tableOf?_among _ _ (mem_distinctTables_lowered.mpr ⟨table, isTable, rfl⟩)
        (mem_distinctTables_lowered.mpr ⟨other, isOther, rfl⟩) apart]
    cases qualified : written.qualifier with
    | none => simp [WrittenColumn.lowered, qualified]
    | some name =>
      cases bound : tables.lookup (lower name) with
      | none => simp [WrittenColumn.lowered, qualified, lookup_lowered, bound]
      | some table =>
        by_cases own : lower table = lower entityTable <;>
          simp [WrittenColumn.lowered, qualified, lookup_lowered, bound, Option.filter, own]
  by_cases empty : distinctTables tables = []
  · have none : distinctTables (loweredTables tables) = [] := by
      refine List.eq_nil_iff_forall_not_mem.mpr fun table listed => ?_
      obtain ⟨other, isOther, -⟩ := mem_distinctTables_lowered.mp listed
      simp [empty] at isOther
    simp [tableOf?, empty, none]
  · obtain ⟨table, isTable⟩ := List.exists_mem_of_ne_nil _ empty
    have one : ∀ other ∈ distinctTables tables, other.toLower = table.toLower := by
      intro other isOther
      by_contra apart
      exact several ⟨other, isOther, table, isTable, apart⟩
    -- One name in lower case: were it spelled in two ways, the query would be excluded.
    have only : ∀ other ∈ distinctTables tables, other = table := by
      intro other isOther
      by_contra apart
      exact notApart ⟨⟨other, isOther, table, isTable, apart⟩,
        fun left isLeft right isRight => (one left isLeft).trans (one right isRight).symm⟩
    have onlyLowered : ∀ other ∈ distinctTables (loweredTables tables), other = table.toLower := by
      intro other listed
      obtain ⟨spelled, isSpelled, rfl⟩ := mem_distinctTables_lowered.mp listed
      rw [only spelled isSpelled]
    rw [tableOf?_only _ _ only isTable,
      tableOf?_only _ _ onlyLowered (mem_distinctTables_lowered.mpr ⟨table, isTable, rfl⟩)]
    cases qualified : written.qualifier with
    | none => simp [WrittenColumn.lowered, qualified]
    | some name =>
      cases bound : tables.lookup (lower name) <;>
        simp [WrittenColumn.lowered, qualified, lookup_lowered, bound]

/-- Where one table has several spellings, a column of the query is one in lower case too. -/
theorem IsSpelledApart.tableOf?_eq {tables : Tables} (apart : IsSpelledApart tables)
    {entityTable table : String} {written : WrittenColumn}
    (found : tableOf? tables entityTable written = some table) :
    tableOf? (loweredTables tables) entityTable written.lowered = some table.toLower := by
  obtain ⟨one, isOne, other, isOther, differ⟩ := apart.several
  -- As written there are two tables, so only a qualified column was found.
  rw [tableOf?_among _ _ isOne isOther differ] at found
  obtain ⟨meant, -, lowered⟩ := apart.tableOf?_lowered entityTable written
  rw [lowered]
  cases qualified : written.qualifier with
  | none => simp [qualified] at found
  | some name =>
    rw [qualified, Option.bind_some, Option.filter_eq_some_iff] at found
    simp [found.1]

/-- The columns that a query writes are lowered with it. -/
theorem writtenColumns_toLower (query : String) :
    writtenColumns query.toLower = (writtenColumns query).map WrittenColumn.lowered := by
  -- Each of the three sources lowers its columns, so the whole list does.
  simp only [writtenColumns, ofString_toLower, conditionColumns_lowered, joinColumns_lowered,
    orderColumns_lowered, ← List.map_append, List.filter_map]
  congr 2
  funext written
  simp [WrittenColumn.lowered]

/-- The tables that a query brings into scope are lowered with it. -/
theorem tablesOf_toLower (query : String) :
    tablesOf query.toLower = loweredTables (tablesOf query) := by
  -- The tokens are lowered, so the tables are.
  rw [tablesOf, ofString_toLower]
  exact bind_lowered _ false []

/-- A column of a table by names that say nothing of the case they are written in. -/
def caseless (reference : ColumnReference) : String × String :=
  (lower reference.table, lower reference.column)

/-- Leaving more out leaves a part of what is left. -/
theorem filterMap_sublist {α β : Type} {f g : α → Option β} {items : List α}
    (part : ∀ item ∈ items, f item = none ∨ f item = g item) :
    (items.filterMap f).Sublist (items.filterMap g) := by
  induction items with
  | nil => exact .slnil
  | cons item items ih =>
    obtain ⟨here, later⟩ := List.forall_mem_cons.mp part
    rw [List.filterMap_cons, List.filterMap_cons]
    -- The first item is left out of the smaller list, or is the same in both.
    rcases here with none | same
    · rw [none]
      cases g item with
      | none => exact ih later
      | some _ => exact (ih later).cons _
    · rw [same]
      cases g item with
      | none => exact ih later
      | some _ => exact (ih later).cons_cons _

/-- The columns of a query by caseless names. -/
theorem map_caseless_columns (entityTable query : String) :
    (columns entityTable query).map caseless = (writtenColumns query).filterMap fun written =>
      (tableOf? (tablesOf query) entityTable written).map
        fun table => (lower table, lower written.column) := by
  -- A column is found where its table is, so the two are mapped together.
  rw [columns_eq_written, List.map_filterMap]
  congr 1
  funext written
  cases tableOf? (tablesOf query) entityTable written <;> rfl

/-- The columns of a query in lower case by caseless names. -/
theorem map_caseless_columns_toLower (entityTable query : String) :
    (columns entityTable query.toLower).map caseless =
      (writtenColumns query).filterMap fun written =>
        (tableOf? (loweredTables (tablesOf query)) entityTable written.lowered).map
          fun table => (lower table, lower written.column) := by
  -- The written columns and the tables of the lowered query are the lowered ones.
  rw [map_caseless_columns, writtenColumns_toLower, tablesOf_toLower, List.filterMap_map]
  congr 1
  funext written
  simp [WrittenColumn.lowered]

/--
The columns of a query are those of the query with its ASCII letters in lower case, by names in any
letter case, unless the only table in scope is spelled in several ways.

In that case the spellings are taken for several tables, and of the columns only some are left: none
at all if no column is qualified, although each one is a column of the query in lower case.
-/
theorem columns_toLower (entityTable query : String) :
    ((columns entityTable query).map caseless).Sublist
        ((columns entityTable query.toLower).map caseless) ∧
      (¬ IsSpelledApart (tablesOf query) → (columns entityTable query).map caseless =
        (columns entityTable query.toLower).map caseless) ∧
      (IsSpelledApart (tablesOf query) →
        (∀ written ∈ writtenColumns query, written.qualifier = none) →
          columns entityTable query = [] ∧
            (columns entityTable query.toLower).length = (writtenColumns query).length) := by
  -- The columns are written alike, so only the tables they belong to could differ.
  have same (notApart : ¬ IsSpelledApart (tablesOf query)) :
      (columns entityTable query).map caseless =
        (columns entityTable query.toLower).map caseless := by
    rw [map_caseless_columns, map_caseless_columns_toLower]
    congr 1
    funext written
    have pair (table? : Option String) :
        table?.map (fun table => (lower table, lower written.column)) =
          (table?.map lower).map (·, lower written.column) := by
      cases table? <;> rfl
    rw [pair, pair, tableOf?_lowered notApart]
  refine ⟨?_, same, fun apart unqualified => ⟨?_, ?_⟩⟩
  · by_cases apart : IsSpelledApart (tablesOf query)
    -- A column that is found among several spellings is found among one as well.
    · rw [map_caseless_columns, map_caseless_columns_toLower]
      refine filterMap_sublist fun written _ => ?_
      cases found : tableOf? (tablesOf query) entityTable written with
      | none => exact .inl rfl
      | some table =>
        right
        simp [apart.tableOf?_eq found]
    · rw [same apart]
  -- Several spellings are several tables, none of which has a column without a qualifier.
  · obtain ⟨table, isTable, other, isOther, differ⟩ := apart.several
    rw [columns_eq_written]
    refine List.filterMap_eq_nil_iff.mpr fun written listed => ?_
    simp [tableOf?_among _ _ isTable isOther differ, unqualified written listed]
  -- In lower case there is one table, and it has every column.
  · have length := congrArg List.length (map_caseless_columns_toLower entityTable query)
    rw [List.length_map] at length
    rw [length, List.filterMap_length_eq_length]
    intro written listed
    obtain ⟨table, -, told⟩ := apart.tableOf?_lowered entityTable written
    simp [told, unqualified written listed]

/-- A query with its table in two spellings, each under an alias of its own. -/
def spelledQuery : String :=
  "SELECT * FROM users u WHERE email = ? AND id IN (SELECT user_id FROM Users v)"

/-- The tokens of that query, put together from the parts around its tables. -/
def spelledTokens : List SqlToken :=
  [.word "SELECT", .operator "*"] ++ .word "FROM" :: .word "users" :: .word "u" ::
    ([.word "WHERE", .word "email", .operator "=", .parameter, .word "AND", .word "id",
      .word "IN", .punctuation '(', .word "SELECT", .word "user_id"] ++ .word "FROM" ::
        .word "Users" :: .word "v" :: ([.punctuation ')'] ++ []))

/-- The query has these tokens. -/
theorem ofString_spelledQuery : SqlToken.ofString spelledQuery = spelledTokens := by
  decide +kernel

/-- Both spellings come into scope, each under its own name and its alias. -/
theorem tablesOf_spelledQuery :
    tablesOf spelledQuery =
      [("v", "Users"), ("users", "Users"), ("u", "users"), ("users", "users")] := by
  have introduces : Jpql.introduces (.word "FROM") = true := by decide
  -- The reader of aliases does not reduce, so each alias is read by its lemma.
  have aliased (token : SqlToken) (name : String) (rest : List SqlToken)
      (named : token.ident? = some name) (noWord : token.isKeyword "as" = false)
      (free : lower name ∉ reserved) :
      Jpql.readAlias reserved (token :: rest) = (some (lower name), rest) :=
    Jpql.readAlias_named (.inr rfl) named noWord free
  rw [tablesOf, ofString_spelledQuery, spelledTokens, bind_passed (by decide +kernel), bind_cons,
    introduces,
    bind_table [] rfl (by decide +kernel) (by decide +kernel)
      (aliased _ "u" _ rfl (by decide +kernel) (by decide +kernel)) (by decide +kernel),
    bind_passed (by decide +kernel), bind_cons, introduces,
    bind_table _ rfl (by decide +kernel) (by decide +kernel)
      (aliased _ "v" _ rfl (by decide +kernel) (by decide +kernel)) (by decide +kernel),
    bind_passed (by decide +kernel), bind_nil]
  decide +kernel

/-- The spellings are taken for two tables. -/
theorem isSpelledApart_spelledQuery : IsSpelledApart (tablesOf spelledQuery) := by
  -- The distinct tables are computed once, and both parts read off them.
  have distinct : distinctTables (tablesOf spelledQuery) = ["Users", "users"] := by
    rw [tablesOf_spelledQuery]
    simp [distinctTables, List.lookup_cons, List.eraseDups_cons]
  constructor
  case several =>
    rw [distinct]
    decide
  case one =>
    have same : "Users".toLower = "users".toLower := by
      rw [← String.toList_inj, toList_toLower, toList_toLower]
      decide
    rw [distinct]
    simp [same]

/-- Both columns are lost, and neither is in lower case. -/
theorem columns_toLower_spelledQuery :
    columns "users" spelledQuery = [] ∧ (columns "users" spelledQuery.toLower).length = 2 := by
  -- The query writes two columns without a qualifier, and those are lost by the third law.
  have written : writtenColumns spelledQuery = [⟨none, "email"⟩, ⟨none, "id"⟩] := by
    simp only [writtenColumns, ofString_spelledQuery]
    decide +kernel
  obtain ⟨-, -, apart⟩ := columns_toLower "users" spelledQuery
  have lost := apart isSpelledApart_spelledQuery (by rw [written]; decide)
  rwa [written] at lost

end Native

end IndexAudit
