import IndexAudit.Proofs.Query.Condition
import IndexAudit.Proofs.Query.Declaration
import IndexAudit.Proofs.Query.Extent

/-!
The tables that a plain select brings into scope.

Each of its tables is in scope by its name and by its alias, and nothing else is: no word of its
conditions or its order is taken for a table.
-/

namespace IndexAudit

namespace Native

open SqlToken
open scoped Computability

/-- The meanings that the use of a table gives to names. -/
def TableUse.entries (use : TableUse) : Tables :=
  (use.knownAs.map fun given => (lower given, use.table)).toList ++ [(lower use.table, use.table)]

/-- The meanings of names in a statement, latest first. -/
def scope : List TableUse → Tables
  | [] => []
  | use :: uses => scope uses ++ use.entries

/-- A name has a meaning by the use of a table of that name or alias. -/
theorem mem_entries {use : TableUse} {key table : String} :
    (key, table) ∈ use.entries ↔
      table = use.table ∧ (lower use.table = key ∨ ∃ given ∈ use.knownAs, lower given = key) := by
  -- Without an alias the name of the table is the only one.
  cases known : use.knownAs with
  | none => simp [TableUse.entries, known, eq_comm, and_comm]
  | some given =>
    simp only [TableUse.entries, known, Option.map_some, Option.toList_some, List.singleton_append,
      List.mem_cons, Prod.mk.injEq, List.not_mem_nil, or_false, Option.mem_some_iff,
      exists_eq_left']
    grind

/-- A name has a meaning in a statement by one of its tables. -/
theorem mem_scope {uses : List TableUse} {key table : String} :
    (key, table) ∈ scope uses ↔ ∃ use ∈ uses, (key, table) ∈ use.entries := by
  -- The scope is made up of the entries of each use.
  induction uses with
  | nil => simp [scope]
  | cons use uses ih => simp [scope, ih, or_comm]

section Bind

/-- The words that introduce tables. -/
def introductions : List String :=
  ["from", "join", "update"]

/-- Outside of declarations each token is looked at for whether it introduces one. -/
theorem bind_cons (tables : Tables) (token : SqlToken) (rest : List SqlToken) :
    bind false tables (token :: rest) = bind (Jpql.introduces token) tables rest := by
  rw [bind]
  simp

/-- No table is left to bring into scope at the end. -/
theorem bind_nil (tables : Tables) : bind false tables [] = tables := by
  rw [bind]
  simp

/-- Tokens that introduce nothing bring nothing into scope. -/
theorem bind_passed {passed : List SqlToken}
    (lacks : ∀ token ∈ passed, token.isOneOf introductions = false) (tables : Tables)
    (rest : List SqlToken) : bind false tables (passed ++ rest) = bind false tables rest := by
  induction passed with
  | nil => rfl
  | cons token passed ih =>
    -- The first token introduces nothing, so it is passed.
    obtain ⟨here, later⟩ := List.forall_mem_cons.mp lacks
    rw [introductions] at here
    rw [List.cons_append, bind_cons, Jpql.introduces, here, ih later]

/-- Where no path begins, nothing comes into scope. -/
theorem bind_pathless (tables : Tables) {tokens : List SqlToken}
    (pathless : (Jpql.readPath tokens).1.getLast? = none) :
    bind true tables tokens = bind false tables tokens := by
  -- Without a last segment there is no table to bring into scope.
  rw [bind.eq_def]
  simp only [if_true]
  split
  · rfl
  · rename_i table found
    rw [pathless] at found
    contradiction

/-- Where nothing is named, nothing comes into scope. -/
theorem bind_nameless (tables : Tables) {rest : List SqlToken}
    (nameless : ∀ token ∈ rest.head?, token.ident? = none) :
    bind true tables rest = bind false tables rest :=
  -- A path begins with a name only.
  bind_pathless tables (by rw [Jpql.readPath_nameless nameless]; rfl)

/--
The table at the end of a path comes into scope by its name, and by its alias if one follows.

Another one is due if a comma is behind that.
-/
theorem bind_path (tables : Tables) {tokens : List SqlToken} {table : String}
    (isLast : (Jpql.readPath tokens).1.getLast? = some table) :
    bind true tables tokens =
      if lower table ∈ reserved then bind false tables (Jpql.readPath tokens).2
      else
        let named := Jpql.readAlias reserved (Jpql.readPath tokens).2
        let scope :=
          (named.1.map fun name => (name, table)).toList ++ (lower table, table) :: tables
        if named.2.head? = some (.punctuation ',') then bind true scope named.2.tail
        else bind false scope named.2 := by
  rw [bind.eq_def]
  simp only [if_true]
  split
  · rename_i found
    rw [isLast] at found
    contradiction
  · rename_i other found
    obtain rfl := Option.some.inj (isLast.symm.trans found)
    by_cases listed : lower table ∈ reserved
    · rw [if_pos (List.contains_iff_mem.mpr listed), if_pos listed]
    rw [if_neg (by simpa using listed), if_neg listed]
    -- The next table is due behind a comma, in the scope with this one.
    split
    · rename_i after follows
      rw [follows]
      cases (Jpql.readAlias reserved (Jpql.readPath tokens).2).1 <;> rfl
    · rename_i noComma
      have ends : (Jpql.readAlias reserved (Jpql.readPath tokens).2).2.head? ≠
          some (.punctuation ',') := by
        intro first
        obtain ⟨after, same⟩ := List.head?_eq_some_iff.mp first
        exact noComma after same
      rw [if_neg ends]
      cases (Jpql.readAlias reserved (Jpql.readPath tokens).2).1 <;> rfl

/--
What holds of the steps in which tables come into scope holds of a whole token list.

Behind a comma, or else at the next keyword, one more table is due in the scope with the one read.
-/
theorem bind_rec {motive : Bool → Tables → List SqlToken → Prop}
    (ends : ∀ tables, motive false tables [])
    (passes : ∀ tables token rest, motive (Jpql.introduces token) tables rest →
      motive false tables (token :: rest))
    (pathless : ∀ tables tokens, (Jpql.readPath tokens).1.getLast? = none →
      motive false tables tokens → motive true tables tokens)
    (listed : ∀ tables tokens table, (Jpql.readPath tokens).1.getLast? = some table →
      lower table ∈ reserved → motive false tables (Jpql.readPath tokens).2 →
      motive true tables tokens)
    (declares : ∀ tables tokens table, (Jpql.readPath tokens).1.getLast? = some table →
      lower table ∉ reserved →
      let named := Jpql.readAlias reserved (Jpql.readPath tokens).2
      let scope := (named.1.map fun name => (name, table)).toList ++ (lower table, table) :: tables
      (∀ rest, named.2 = .punctuation ',' :: rest → motive true scope rest) →
      (named.2.head? ≠ some (.punctuation ',') → motive false scope named.2) →
      motive true tables tokens)
    (declaring : Bool) (tables : Tables) (tokens : List SqlToken) :
    motive declaring tables tokens := by
  fun_induction bind declaring tables tokens with
  | case1 tables tokens path found ih => exact pathless tables tokens found ih
  | case2 tables tokens path table found shorter isListed ih =>
    exact listed tables tokens table found (List.contains_iff_mem.mp isListed) ih
  -- A comma follows the table, so the case without one is void.
  | case3 tables tokens path table found shorter free named notLonger withName scope after comma
      less ih =>
    -- The scope is built in two ways in the definition, and in one here.
    have known : scope = (named.1.map fun name => (name, table)).toList ++
        (lower table, table) :: tables := by
      unfold scope
      cases named.1 <;> rfl
    refine declares tables tokens table found (by simpa using free) ?_ ?_
    · intro rest same
      obtain rfl := (List.cons.inj (comma.symm.trans same)).2
      exact known ▸ ih
    · exact fun last => absurd (by rw [comma]; rfl) last
  | case4 tables tokens path table found shorter free named notLonger withName scope other less
      ih =>
    have known : scope = (named.1.map fun name => (name, table)).toList ++
        (lower table, table) :: tables := by
      unfold scope
      cases named.1 <;> rfl
    refine declares tables tokens table found (by simpa using free) ?_ ?_
    · exact fun rest same => absurd same (other rest)
    · exact fun last => known ▸ ih
  | case5 declaring tables outside =>
    rw [(Bool.not_eq_true _).mp outside]
    exact ends tables
  | case6 declaring tables outside token rest ih =>
    rw [(Bool.not_eq_true _).mp outside]
    exact passes tables token rest ih

/-- A table that is declared comes into scope in front of what follows it. -/
theorem bind_declares (tables : Tables) {tokens : List SqlToken} {table : String}
    (isLast : (Jpql.readPath tokens).1.getLast? = some table) (free : lower table ∉ reserved) :
    let named := Jpql.readAlias reserved (Jpql.readPath tokens).2
    let scope := (named.1.map fun name => (name, table)).toList ++ (lower table, table) :: tables
    (∀ rest, named.2 = .punctuation ',' :: rest → bind true tables tokens = bind true scope rest) ∧
      (named.2.head? ≠ some (.punctuation ',') →
        bind true tables tokens = bind false scope named.2) := by
  -- The name is free, so only the comma decides how to go on.
  rw [bind_path tables isLast, if_neg free]
  dsimp only
  refine ⟨fun rest same => ?_, fun last => if_neg last⟩
  rw [same]
  exact if_pos rfl

/-- Tables that are in scope before stay behind those that come into scope. -/
theorem bind_scope (declaring : Bool) (tables : Tables) (tokens : List SqlToken) (known : Tables) :
    bind declaring (tables ++ known) tokens = bind declaring tables tokens ++ known := by
  induction declaring, tables, tokens using bind_rec with
  | ends tables => rw [bind_nil, bind_nil]
  | passes tables token rest ih => rw [bind_cons, bind_cons, ih]
  | pathless tables tokens none ih => rw [bind_pathless _ none, bind_pathless _ none, ih]
  | listed tables tokens table isLast isListed ih =>
    rw [bind_path _ isLast, bind_path _ isLast, if_pos isListed, if_pos isListed, ih]
  -- The table that is read comes in front of both scopes.
  | declares tables tokens table isLast free named scope commaCase lastCase =>
    obtain ⟨behindComma, behind⟩ := bind_declares tables isLast free
    obtain ⟨outerComma, outer⟩ := bind_declares (tables ++ known) isLast free
    have inFront : (named.1.map fun name => (name, table)).toList ++
        (lower table, table) :: (tables ++ known) = scope ++ known := by
      simp [scope]
    by_cases comma : named.2.head? = some (.punctuation ',')
    · obtain ⟨rest, same⟩ := List.head?_eq_some_iff.mp comma
      rw [outerComma rest same, behindComma rest same, inFront, commaCase rest same]
    · rw [outer comma, behind comma, inFront, lastCase comma]

/-- A table comes into scope by its name, and by its alias if one follows. -/
theorem bind_table {token : SqlToken} {table : String} {rest after : List SqlToken}
    {known : Option String} (tables : Tables) (named : token.ident? = some table)
    (free : lower table ∉ reserved) (ends : rest.head? ≠ some (.punctuation '.'))
    (aliased : Jpql.readAlias reserved rest = (known, after))
    (last : after.head? ≠ some (.punctuation ',')) :
    bind true tables (token :: rest) =
      bind false ((known.map fun name => (name, table)).toList ++ (lower table, table) :: tables)
        after := by
  -- The name is a path by itself, as no dot follows.
  have path := Jpql.readPath_single named ends
  have isLast : (Jpql.readPath (token :: rest)).1.getLast? = some table := by
    rw [path]
    rfl
  rw [bind_path tables isLast, path, if_neg free, aliased]
  exact if_neg last

/-- No word that may follow a table is an alias. -/
theorem Follows.isNoAlias {words : List String} {rest : List SqlToken}
    (follows : Follows words rest) (known : words ⊆ reserved)
    (plain : ∀ word ∈ words, IsPlainWord word)
    (apart : ∀ word ∈ words, eqIgnoringAsciiCase word "as" = false) :
    Jpql.IsNoAlias reserved rest := by
  constructor
  · cases rest with
    | nil => rfl
    | cons token rest =>
      obtain ⟨word, listed, found⟩ := List.any_eq_true.mp (follows token rfl)
      exact (isKeyword_other found).trans (apart word listed)
  -- A word that may follow is reserved, and reserved words are no aliases.
  · intro token first name named
    obtain ⟨word, listed, found⟩ := List.any_eq_true.mp (follows token first)
    obtain ⟨text, rfl, same⟩ := eq_word_of_isKeyword (plain word listed) found
    obtain rfl := Option.some.inj named
    exact same ▸ known listed

/--
What does not go on with a table or an alias in front of it, nor with a list of them.

It is not named by itself either, even where a table is due.
-/
structure Breaks (rest : List SqlToken) : Prop where
  noAlias : Jpql.IsNoAlias reserved rest
  noMark : ∀ mark ∈ ['.', ','], rest.head? ≠ some (.punctuation mark)
  noPath : rest.tail.head? ≠ some (.punctuation '.')
  plain : ∀ token ∈ rest.head?, Jpql.introduces token = false

/-- Where a table is due, nothing is named by what breaks off. -/
theorem Breaks.bind_eq {rest : List SqlToken} (breaks : Breaks rest) (tables : Tables) :
    bind true tables rest = bind false tables rest := by
  cases rest with
  | nil => exact bind_nameless tables (by simp)
  | cons token rest =>
    cases named : token.ident? with
    | none => exact bind_nameless tables (by simp [named])
    | some name =>
      -- The word in front is reserved, so it is passed over as any other token is.
      have path : Jpql.readPath (token :: rest) = ([name], rest) :=
        Jpql.readPath_single named breaks.noPath
      have listed : lower name ∈ reserved := breaks.noAlias.noName token rfl name named
      have isLast : (Jpql.readPath (token :: rest)).1.getLast? = some name := by
        rw [path]
        rfl
      rw [bind_path tables isLast, path, if_pos listed, bind_cons, breaks.plain token rfl]

/-- The tables in front of what breaks off come into scope as if nothing stood there. -/
theorem bind_append {rest : List SqlToken} (breaks : Breaks rest) (declaring : Bool)
    (tables : Tables) {tokens : List SqlToken}
    (ends : tokens.getLast? ≠ some (.punctuation '.')) :
    bind declaring tables (tokens ++ rest) = bind false (bind declaring tables tokens) rest := by
  have noDot := breaks.noMark '.' (by simp)
  have noComma := breaks.noMark ',' (by simp)
  induction declaring, tables, tokens using bind_rec with
  | ends tables => rw [List.nil_append, bind_nil]
  | passes tables token more ih =>
    rw [List.cons_append, bind_cons, bind_cons,
      ih (getLast?_ne_of_suffix (List.suffix_cons _ _) ends)]
  -- No table may be due at the end of the tokens; what breaks off gives none either.
  | pathless tables tokens none ih =>
    by_cases filled : tokens = []
    · rw [filled, List.nil_append, breaks.bind_eq, bind_pathless _ (by rw [Jpql.readPath]; rfl),
        bind_nil]
    · have pathless : (Jpql.readPath (tokens ++ rest)).1.getLast? = Option.none := by
        rw [Jpql.readPath_append filled ends noDot, none]
      rw [bind_pathless _ pathless, bind_pathless _ none, ih ends]
  | listed tables tokens table isLast isListed ih =>
    have filled : tokens ≠ [] := by
      rintro rfl
      simp [Jpql.readPath] at isLast
    have read := Jpql.readPath_append filled ends noDot
    rw [bind_path _ (by rw [read, isLast]), bind_path _ isLast, if_pos isListed, if_pos isListed,
      read, ih (getLast?_ne_of_suffix (Jpql.readPath_isSuffix tokens) ends)]
  | declares tables tokens table isLast free named scope commaCase lastCase =>
    have filled : tokens ≠ [] := by
      rintro rfl
      simp [Jpql.readPath] at isLast
    -- Neither the path nor the alias of the table reaches into what breaks off.
    have read := Jpql.readPath_append filled ends noDot
    have within : named.2 <:+ tokens :=
      (Jpql.readAlias_isSuffix reserved _).trans (Jpql.readPath_isSuffix tokens)
    obtain ⟨behindComma, behind⟩ := bind_declares tables isLast free
    have isLastToo : (Jpql.readPath (tokens ++ rest)).1.getLast? = some table := by
      rw [read, isLast]
    obtain ⟨longComma, long⟩ := bind_declares tables isLastToo free
    rw [read, Jpql.readAlias_append breaks.noAlias] at longComma long
    dsimp only at longComma long
    by_cases comma : named.2.head? = some (.punctuation ',')
    · obtain ⟨after, same⟩ := List.head?_eq_some_iff.mp comma
      have shorter : after <:+ tokens := ((List.suffix_cons _ _).trans (same ▸ within))
      rw [behindComma after same, longComma (after ++ rest) (by rw [same]; rfl)]
      exact commaCase after same (getLast?_ne_of_suffix shorter ends)
    -- Nor does a comma at its start go on with the list.
    · have apart : (named.2 ++ rest).head? ≠ some (.punctuation ',') := by
        cases follows : named.2 with
        | nil => exact noComma
        | cons token more => rwa [follows] at comma
      rw [behind comma, long apart]
      exact lastCase comma (getLast?_ne_of_suffix within ends)

/-- One of the words that stand behind tables goes on with none in front of it. -/
theorem Follows.breaks {words : List String} {rest : List SqlToken} (follows : Follows words rest)
    (known : words ⊆ reserved) (plain : ∀ word ∈ words, IsPlainWord word)
    (apart : ∀ word ∈ words, ("as" :: introductions).any (eqIgnoringAsciiCase word ·) = false)
    (noPath : rest.tail.head? ≠ some (.punctuation '.')) : Breaks rest := by
  -- Each word at the front is reserved, no mark, and none that introduces a table.
  constructor
  case noAlias =>
    refine follows.isNoAlias known plain fun word listed => ?_
    have other := apart word listed
    rw [List.any_cons, Bool.or_eq_false_iff] at other
    exact other.1
  case noMark => exact fun mark _ => follows.head?_ne rfl
  case noPath => exact noPath
  case plain =>
    refine follows.isOneOf_eq fun word listed => ?_
    have other := apart word listed
    rw [List.any_cons, Bool.or_eq_false_iff] at other
    exact other.2

/-- The words that may follow a table and its alias. -/
def useEnds : List String :=
  "on" :: joinEnds

/-- The use of a table brings its names into scope. -/
theorem bind_use {use : TableUse} {tokens rest : List SqlToken} (tables : Tables)
    (written : tokens ∈ use.written) (follows : Follows useEnds rest) :
    bind true tables (tokens ++ rest) = bind false (use.entries ++ tables) rest := by
  obtain ⟨_, ⟨_, isName, separator, optionally, rfl⟩, tail, isAlias, rfl⟩ := written
  obtain ⟨free, token, named, rfl⟩ := mem_name isName
  have unreserved : lower use.table ∉ reserved := fun listed =>
    free (by simp [keywords, listed])
  have last : rest.head? ≠ some (.punctuation ',') := follows.head?_ne rfl
  have noDot : rest.head? ≠ some (.punctuation '.') := follows.head?_ne rfl
  -- Neither the word in front of an alias nor the alias itself is a dot.
  have asNoDot : ∀ others : List SqlToken, others.head? ≠ some (.punctuation '.') →
      (separator ++ others).head? ≠ some (.punctuation '.') := by
    intro others ends
    rcases mem_optional.mp optionally with ⟨word, found, rfl⟩ | rfl
    · rintro same
      obtain rfl := Option.some.inj same
      simp [isKeyword] at found
    · exact ends
  simp only [List.append_assoc, List.cons_append, List.nil_append]
  cases known : use.knownAs with
  | none =>
    rw [known] at isAlias
    obtain rfl : tail = [] := isAlias
    have noAlias : Jpql.IsNoAlias reserved rest :=
      follows.isNoAlias (by decide) (by decide +kernel) (by decide)
    rw [List.nil_append, bind_table tables named unreserved (asNoDot rest noDot)
      (Jpql.readAlias_none optionally noAlias) last]
    simp [TableUse.entries, known]
  | some given =>
    rw [known] at isAlias
    obtain ⟨apart, second, namedToo, rfl⟩ := mem_name isAlias
    have notAs : second.isKeyword "as" = false := by
      have lacks : Lacks ["as"] (name given) := lacks_name (by decide) given
      simpa [isOneOf] using lacks [second] isAlias second (by simp)
    have free : lower given ∉ reserved := fun listed => apart (by simp [keywords, listed])
    have secondNoDot : (second :: rest).head? ≠ some (.punctuation '.') := by
      rintro same
      obtain rfl := Option.some.inj same
      contradiction
    rw [List.singleton_append, bind_table tables named unreserved (asNoDot _ secondNoDot)
      (Jpql.readAlias_named optionally namedToo notAs free) last]
    simp [TableUse.entries, known]

/-- Joined tables come into scope one after another. -/
theorem bind_joins {joins : List Join} {tokens rest : List SqlToken} (tables : Tables)
    (written : tokens ∈ joinClauses joins) :
    bind false tables (tokens ++ rest) =
      bind false (scope (joins.map (·.use)) ++ tables) rest := by
  induction joins generalizing tokens tables with
  | nil =>
    obtain rfl : tokens = [] := written
    rfl
  | cons next joins ih =>
    obtain ⟨_, ⟨_, ⟨_, ⟨_, ⟨_, ⟨_, ⟨join, isJoin, rfl⟩, use, isUse, rfl⟩, on, isOn, rfl⟩, left,
      isLeft, rfl⟩, sign, isSign, rfl⟩, right, isRight, rfl⟩, later, isLater, rfl⟩ := written
    have introduces : Jpql.introduces join = true := by
      rw [Jpql.introduces, isOneOf_keyword isJoin]
      decide
    have onFollows : ∀ others, Follows useEnds (on ++ others) :=
      follows_keyword isOn (by decide)
    have condition : Lacks introductions
        (keyword "on" * column next.left * lone (.operator "=") * column next.right) :=
      (((lacks_keyword (by decide) (by decide) (by decide)).mul
        (lacks_column (by decide) _)).mul (lacks_lone rfl)).mul (lacks_column (by decide) _)
    -- The condition of a join is passed, as none of its words introduces a table.
    have passed := bind_passed (condition (on ++ left ++ sign ++ right)
      ⟨_, ⟨_, ⟨_, isOn, _, isLeft, rfl⟩, _, isSign, rfl⟩, _, isRight, rfl⟩)
    simp only [List.append_assoc] at passed
    simp only [List.append_assoc, List.cons_append, List.nil_append]
    rw [bind_cons, introduces, bind_use tables isUse (onFollows _), passed, ih _ isLater]
    simp [scope]

/-- A table is in scope by its own name beside any other, whatever that name means now. -/
def IsNamed (tables : Tables) : Prop :=
  ∀ entry ∈ tables, (tables.lookup (lower entry.2)).isSome = true

/-- A name that means a table goes on to mean one when more names are in front of it. -/
theorem isSome_lookup_append {tables : Tables} {key : String} (front : Tables)
    (known : (tables.lookup key).isSome = true) :
    ((front ++ tables).lookup key).isSome = true := by
  -- The name is found in front, or else where it was found before.
  rw [List.lookup_append, Option.isSome_or, known, Bool.or_true]

/-- Each table comes into scope by its own name. -/
theorem isNamed_bind (declaring : Bool) (tables : Tables) (tokens : List SqlToken)
    (known : IsNamed tables) : IsNamed (bind declaring tables tokens) := by
  induction declaring, tables, tokens using bind_rec with
  | ends tables => rwa [bind_nil]
  | passes tables token rest ih =>
    rw [bind_cons]
    exact ih known
  | pathless tables tokens none ih =>
    rw [bind_pathless _ none]
    exact ih known
  | listed tables tokens table isLast isListed ih =>
    rw [bind_path _ isLast, if_pos isListed]
    exact ih known
  | declares tables tokens table isLast free named scope commaCase lastCase =>
    have own : (((lower table, table) :: tables).lookup (lower table)).isSome = true := by simp
    -- An alias stands for the table that comes into scope with it, by its own name.
    have names : IsNamed scope := by
      intro entry member
      rcases List.mem_append.mp member with isAlias | isKnown
      · obtain ⟨name, -, rfl⟩ : ∃ name, named.1 = some name ∧ (name, table) = entry := by
          simpa using isAlias
        exact isSome_lookup_append _ own
      · rcases List.mem_cons.mp isKnown with rfl | isOld
        · exact isSome_lookup_append _ own
        · exact isSome_lookup_append _ (isSome_lookup_append [_] (known entry isOld))
    obtain ⟨behindComma, behind⟩ := bind_declares tables isLast free
    by_cases comma : named.2.head? = some (.punctuation ',')
    · obtain ⟨rest, same⟩ := List.head?_eq_some_iff.mp comma
      rw [behindComma rest same]
      exact commaCase rest same names
    · rw [behind comma]
      exact lastCase comma names

end Bind

/-- Names in which each one has one meaning. -/
def IsConsistent (tables : Tables) : Prop :=
  ∀ key table other, (key, table) ∈ tables → (key, other) ∈ tables → table = other

/-- With one meaning for each name, any of its meanings is the one found. -/
theorem lookup_eq_some {tables : Tables} (consistent : IsConsistent tables) {key table : String} :
    tables.lookup key = some table ↔ (key, table) ∈ tables := by
  -- The meaning found is one of them, and by assumption there is no other.
  constructor
  · intro found
    obtain ⟨before, after, rfl, -⟩ := List.lookup_eq_some_iff.mp found
    simp
  · intro member
    have isSome : (tables.lookup key).isSome = true :=
      List.lookup_isSome_iff.mpr ⟨(key, table), member, beq_self_eq_true key⟩
    obtain ⟨other, found⟩ := Option.isSome_iff_exists.mp isSome
    obtain ⟨before, after, rfl, -⟩ := List.lookup_eq_some_iff.mp found
    rw [found, consistent key other table (by simp) member]

/-- Two uses with one alias are the same use. -/
theorem eq_of_knownAs {uses : List TableUse}
    (aliases : ((uses.filterMap (·.knownAs)).map lower).Nodup) {use other : TableUse}
    (member : use ∈ uses) (otherMember : other ∈ uses) {given second : String}
    (isGiven : given ∈ use.knownAs) (isSecond : second ∈ other.knownAs)
    (same : lower given = lower second) : use = other := by
  induction uses with
  | nil => contradiction
  | cons first uses ih =>
    -- An alias of the first use is none of the aliases behind it.
    have apart : ∀ later ∈ uses, ∀ own ∈ first.knownAs, ∀ another ∈ later.knownAs,
        lower own ≠ lower another := by
      intro later isLater own isOwn another isAnother equal
      have known : first.knownAs = some own := isOwn
      rw [List.filterMap_cons, known, List.map_cons, List.nodup_cons] at aliases
      refine aliases.1 (equal ▸ List.mem_map_of_mem ?_)
      exact List.mem_filterMap.mpr ⟨later, isLater, isAnother⟩
    have others : ((uses.filterMap (·.knownAs)).map lower).Nodup :=
      aliases.sublist (((List.sublist_cons_self first uses).filterMap _).map lower)
    rcases List.mem_cons.mp member with isFirst | isLater
    · rcases List.mem_cons.mp otherMember with otherFirst | otherLater
      · exact isFirst.trans otherFirst.symm
      · subst isFirst
        exact absurd same (apart other otherLater given isGiven second isSecond)
    · rcases List.mem_cons.mp otherMember with otherFirst | otherLater
      · subst otherFirst
        exact absurd same.symm (apart use isLater second isSecond given isGiven)
      · exact ih others isLater otherLater

/-- In a statement in which names are clear, each name has one meaning. -/
theorem Select.IsScoped.consistent {select : Select} (inScope : select.IsScoped) :
    IsConsistent (scope select.uses) := by
  intro key table other first second
  obtain ⟨use, isUse, entry⟩ := mem_scope.mp first
  obtain ⟨later, isLater, laterEntry⟩ := mem_scope.mp second
  obtain ⟨rfl, named⟩ := mem_entries.mp entry
  obtain ⟨rfl, laterNamed⟩ := mem_entries.mp laterEntry
  -- A key is the name of a table or an alias; the two never meet.
  rcases named with named | ⟨given, isGiven, named⟩
  · rcases laterNamed with laterNamed | ⟨given, isGiven, laterNamed⟩
    · exact inScope.tables use isUse later isLater (named.trans laterNamed.symm)
    · exact absurd (laterNamed.trans named.symm)
        (inScope.apart later isLater given isGiven use isUse)
  · rcases laterNamed with laterNamed | ⟨another, isAnother, laterNamed⟩
    · exact absurd (named.trans laterNamed.symm)
        (inScope.apart use isUse given isGiven later isLater)
    · rw [eq_of_knownAs inScope.aliases isUse isLater isGiven isAnother
        (named.trans laterNamed.symm)]

/-- In a statement in which names are clear, a name is bound to the table that it names. -/
theorem Select.IsScoped.lookup {select : Select} (inScope : select.IsScoped) {use : TableUse}
    (isUse : use ∈ select.uses) {qualifier : String} (named : use.IsNamed qualifier) :
    (scope select.uses).lookup (lower qualifier) = some use.table :=
  -- The use gives the name this meaning, and meanings are unique.
  (lookup_eq_some inScope.consistent).mpr
    (mem_scope.mpr ⟨use, isUse, mem_entries.mpr ⟨rfl, named⟩⟩)

/-- A table that a name is bound to is in scope. -/
theorem mem_distinctTables {tables : Tables} {key table : String}
    (found : tables.lookup key = some table) : table ∈ distinctTables tables := by
  obtain ⟨before, after, listed, -⟩ := List.lookup_eq_some_iff.mp found
  -- The entry that binds the name is one of those whose name leads to their table.
  refine List.mem_eraseDups.mpr (List.mem_map.mpr ⟨(key, table), List.mem_filter.mpr ⟨?_, ?_⟩, rfl⟩)
  · simp [listed]
  · simpa using found

/-- The only table that names are bound to is the only one in scope. -/
theorem distinctTables_only {tables : Tables} {table : String}
    (only : ∀ key other, tables.lookup key = some other → other = table) {key : String}
    (found : tables.lookup key = some table) : distinctTables tables = [table] := by
  have within : ∀ other ∈ (tables.filter fun entry =>
      tables.lookup entry.1 == some entry.2).map (·.2), other = table := by
    intro other member
    obtain ⟨entry, isEntry, rfl⟩ := List.mem_map.mp member
    exact only entry.1 entry.2 (by simpa using (List.mem_filter.mp isEntry).2)
  have listed := mem_distinctTables found
  unfold distinctTables at listed ⊢
  cases texts : (tables.filter fun entry => tables.lookup entry.1 == some entry.2).map (·.2) with
  | nil => simp [texts] at listed
  | cons first others =>
    rw [texts] at within
    obtain ⟨rfl, later⟩ := List.forall_mem_cons.mp within
    -- All others are the same table, so only the first one is kept.
    have none : others.filter (fun other => !other == first) = [] := by
      refine List.filter_eq_nil_iff.mpr ?_
      intro other member
      simp [later other member]
    rw [List.eraseDups_cons, none, List.eraseDups_nil]

/-- The only table that entries are for is the only one in scope. -/
theorem distinctTables_one {tables : Tables} {table : String}
    (only : ∀ entry ∈ tables, entry.2 = table) {key : String}
    (found : tables.lookup key = some table) : distinctTables tables = [table] := by
  -- What a name is bound to is the table of an entry.
  refine distinctTables_only (fun key other bound => ?_) found
  obtain ⟨before, after, listed, -⟩ := List.lookup_eq_some_iff.mp bound
  exact only (key, other) (by simp [listed])

/-- Of two tables that names are bound to, none is the only one in scope. -/
theorem distinctTables_several {tables : Tables} {key other table second : String}
    (found : tables.lookup key = some table) (foundToo : tables.lookup other = some second)
    (apart : table ≠ second) :
    ∃ first next more, distinctTables tables = first :: next :: more := by
  -- Both tables are in the list, so it cannot have a single element.
  have left := mem_distinctTables found
  have right := mem_distinctTables foundToo
  match listed : distinctTables tables with
  | [] => simp [listed] at left
  | [only] =>
    rw [listed, List.mem_singleton] at left right
    exact absurd (left.trans right.symm) apart
  | first :: next :: more => exact ⟨first, next, more, rfl⟩

/-- A table is in scope if some name is bound to it. -/
theorem mem_distinctTables_iff {tables : Tables} {table : String} :
    table ∈ distinctTables tables ↔ ∃ key, tables.lookup key = some table := by
  refine ⟨fun listed => ?_, fun ⟨key, found⟩ => mem_distinctTables found⟩
  -- Tables in scope are those of entries that are found by their own name.
  obtain ⟨entry, kept, rfl⟩ := List.mem_map.mp (List.mem_eraseDups.mp listed)
  exact ⟨entry.1, by simpa using (List.mem_filter.mp kept).2⟩

section TableOf

variable {tables : Tables} {table : String} (entityTable : String) (written : WrittenColumn)

/-- With one table in scope, a column belongs to it unless its qualifier is bound to none. -/
theorem tableOf?_only (only : ∀ other ∈ distinctTables tables, other = table)
    (isTable : table ∈ distinctTables tables) :
    tableOf? tables entityTable written =
      written.qualifier.elim (some table) fun name => tables.lookup (lower name) := by
  obtain ⟨key, found⟩ := mem_distinctTables_iff.mp isTable
  -- With one table in scope, the function takes the branch for that.
  have distinct := distinctTables_only
    (fun key other bound => only other (mem_distinctTables bound)) found
  cases qualified : written.qualifier with
  | none => simp [tableOf?, distinct, qualified]
  | some name =>
    cases bound : tables.lookup (lower name) with
    | none => simp [tableOf?, distinct, qualified, bound]
    | some other =>
      obtain rfl := only other (mem_distinctTables bound)
      simp [tableOf?, distinct, qualified, bound]

/-- With several tables in scope, a column belongs to that of the entity by its qualifier alone. -/
theorem tableOf?_among {other : String} (isTable : table ∈ distinctTables tables)
    (isOther : other ∈ distinctTables tables) (apart : table ≠ other) :
    tableOf? tables entityTable written = written.qualifier.bind fun name =>
      (tables.lookup (lower name)).filter fun table => lower table == lower entityTable := by
  -- Two different tables in scope make several, and then only a qualifier decides.
  obtain ⟨key, found⟩ := mem_distinctTables_iff.mp isTable
  obtain ⟨second, foundToo⟩ := mem_distinctTables_iff.mp isOther
  obtain ⟨first, next, more, distinct⟩ := distinctTables_several found foundToo apart
  cases qualified : written.qualifier with
  | none => simp [tableOf?, distinct, qualified]
  | some name => simp [tableOf?, distinct, qualified]

end TableOf

/-- With one table in scope, each column belongs to it. -/
theorem Select.IsScoped.tableOf?_one {select : Select} (inScope : select.IsScoped)
    {table : String} (only : ∀ use ∈ select.uses, use.table = table) (entityTable : String)
    {written : WrittenColumn}
    (known : ∀ qualifier ∈ written.qualifier, ∃ use ∈ select.uses, use.IsNamed qualifier) :
    tableOf? (scope select.uses) entityTable written = some table := by
  -- Every entry is for the table, so it is the only one, and each qualifier names it.
  have within : ∀ entry ∈ scope select.uses, entry.2 = table := by
    rintro ⟨key, other⟩ member
    obtain ⟨use, isUse, entry⟩ := mem_scope.mp member
    exact (mem_entries.mp entry).1.trans (only use isUse)
  have isFirst : select.first ∈ select.uses := by simp [Select.uses]
  have found := inScope.lookup isFirst (.inl rfl)
  rw [only select.first isFirst] at found
  have distinct := distinctTables_one within found
  cases qualified : written.qualifier with
  | none => simp [tableOf?, distinct, qualified]
  | some qualifier =>
    obtain ⟨use, isUse, named⟩ := known qualifier qualified
    have bound := inScope.lookup isUse named
    rw [only use isUse] at bound
    simp [tableOf?, distinct, qualified, bound]

/-- With several tables in scope, a column belongs to a table by its qualifier alone. -/
theorem Select.IsScoped.tableOf?_several {select : Select} (inScope : select.IsScoped)
    {use other : TableUse} (isUse : use ∈ select.uses) (isOther : other ∈ select.uses)
    (apart : use.table ≠ other.table) (entityTable : String) {written : WrittenColumn}
    (known : ∀ qualifier ∈ written.qualifier, ∃ use ∈ select.uses, use.IsNamed qualifier) :
    tableOf? (scope select.uses) entityTable written = written.qualifier.bind fun qualifier =>
      (select.uses.find? fun use => use.IsNamed qualifier).bind fun use =>
        if lower use.table = lower entityTable then some use.table else none := by
  obtain ⟨first, second, more, distinct⟩ := distinctTables_several
    (inScope.lookup isUse (.inl rfl)) (inScope.lookup isOther (.inl rfl)) apart
  cases qualified : written.qualifier with
  | none => simp [tableOf?, distinct, qualified]
  | some qualifier =>
    obtain ⟨meant, isMeant, named⟩ := known qualifier qualified
    have found : (select.uses.find? fun use => use.IsNamed qualifier).isSome = true :=
      List.find?_isSome.mpr ⟨meant, isMeant, by simpa using named⟩
    obtain ⟨first, isFirst⟩ := Option.isSome_iff_exists.mp found
    -- Names are distinct, so the first use of that name is the one it is bound to.
    have isNamed : first.IsNamed qualifier := by simpa using List.find?_some isFirst
    have bound := inScope.lookup (List.mem_of_find?_eq_some isFirst) isNamed
    simp [tableOf?, distinct, qualified, bound, isFirst, Option.filter]

/-- The columns that a query writes where a lookup is made by them. -/
def writtenColumns (query : String) : List WrittenColumn :=
  let tokens := SqlToken.ofString query
  (conditionColumns tokens ++ joinColumns tokens ++ orderColumns 0 tokens).filter
    fun column => !nonColumns.contains (lower column.column)

/-- The tables that a query brings into scope. -/
def tablesOf (query : String) : Tables :=
  bind false [] (SqlToken.ofString query)

/-- The columns of a query are those it writes, as far as their tables are told. -/
theorem columns_eq_written (entityTable query : String) :
    columns entityTable query = (writtenColumns query).filterMap fun written =>
      (tableOf? (tablesOf query) entityTable written).map (⟨·, written.column⟩) :=
  rfl

end Native

end IndexAudit
