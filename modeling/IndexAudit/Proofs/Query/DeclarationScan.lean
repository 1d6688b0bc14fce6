import IndexAudit.Proofs.Query.Declaration

/-!
The declarations of a query, read one token after another.

What a token does depends on where it stands in a declaration and on the aliases that are known by
then, so the scan of a query up to a place tells whether a declaration begins there.
-/

namespace IndexAudit

namespace Jpql

open SqlToken

/-- What is read of the path of a declaration. -/
structure OpenPath where
  /-- Whether the first segment is an alias that is known. -/
  known : Bool
  /-- Whether there is a segment behind the first one. -/
  deep : Bool
  last : String
deriving Repr, DecidableEq

namespace OpenPath

/-- Whether the path leads along an association. -/
def isAssociation (path : OpenPath) : Bool :=
  path.deep && path.known

/-- The entity that the path names, unless it leads along an association. -/
def entity (path : OpenPath) : Option String :=
  if path.isAssociation then none else some path.last

/-- The path with some more segments. -/
def extend (path : OpenPath) (names : List String) : OpenPath :=
  match names.getLast? with
  | none => path
  | some last => { path with deep := true, last := last }

end OpenPath

/-- Where in a declaration a token stands. -/
inductive Stage where
  /-- No declaration goes on. -/
  | outside
  /-- The word that introduces a declaration came right before. -/
  | introduced
  /-- A declaration begins. -/
  | due
  /-- The path ends in a segment. -/
  | segment (path : OpenPath)
  /-- The path ends in a dot. -/
  | dot (path : OpenPath)
  /-- The word for an alias came right before. -/
  | aliasing (entity : Option String)
  /-- The declaration is over, unless a comma follows. -/
  | declared
deriving Repr, DecidableEq

/-- The scan of a query up to some token. -/
structure Scan where
  stage : Stage
  aliases : Aliases
deriving Repr, DecidableEq

namespace Scan

/-- A token outside of declarations. -/
def pass (aliases : Aliases) (token : SqlToken) : Scan :=
  ⟨if introduces token then .introduced else .outside, aliases⟩

/-- A token behind a declaration. -/
def close (aliases : Aliases) (token : SqlToken) : Scan :=
  if token = .punctuation ',' then ⟨.due, aliases⟩ else pass aliases token

/-- A token where an alias may stand. -/
def bind (aliases : Aliases) (entity : Option String) (token : SqlToken) : Scan :=
  match token.ident? with
  | none => close aliases token
  | some name =>
    if reserved.contains (lower name) then close aliases token
    else ⟨.declared, (lower name, entity) :: aliases⟩

/-- A token where a declaration begins. -/
def begin (aliases : Aliases) (token : SqlToken) : Scan :=
  match token.ident? with
  | none => pass aliases token
  | some name => ⟨.segment ⟨(aliases.lookup (lower name)).isSome, false, name⟩, aliases⟩

/-- The scan behind one more token. -/
def next (scan : Scan) (token : SqlToken) : Scan :=
  match scan.stage with
  | .outside => pass scan.aliases token
  | .introduced =>
    if token.isKeyword "fetch" then ⟨.due, scan.aliases⟩ else begin scan.aliases token
  | .due => begin scan.aliases token
  -- Behind a name come more of the path, an alias, or what ends the declaration.
  | .segment path =>
    if token = .punctuation '.' then ⟨.dot path, scan.aliases⟩
    else if token.isKeyword "as" then ⟨.aliasing path.entity, scan.aliases⟩
    else bind scan.aliases path.entity token
  | .dot path =>
    match token.ident? with
    | none => close scan.aliases token
    | some name => ⟨.segment (path.extend [name]), scan.aliases⟩
  | .aliasing entity => bind scan.aliases entity token
  | .declared => close scan.aliases token

/-- Whether a declaration begins with a token. -/
def begins (scan : Scan) (token : SqlToken) : Bool :=
  match scan.stage with
  | .introduced => !token.isKeyword "fetch"
  | .due => true
  | _ => false

/-- Whether a token is an alias that is known. -/
def knows (scan : Scan) (token : SqlToken) : Bool :=
  token.ident?.any fun name => (scan.aliases.lookup (lower name)).isSome

/-- Whether a segment of a path follows. -/
def continues (rest : List SqlToken) : Bool :=
  rest.head?.any (·.ident?.isSome)

/-- Whether a token belongs to the path of an association. -/
def marks (scan : Scan) (token : SqlToken) (rest : List SqlToken) : Bool :=
  match scan.stage with
  | .segment path =>
    token == .punctuation '.' && (path.deep || continues rest) && path.known
  | .dot path => token.ident?.isSome && path.known
  | _ =>
    scan.begins token && rest.head? == some (.punctuation '.') && continues rest.tail &&
      scan.knows token

/-- The aliases behind a token list, and its tokens with the joined paths told from the rest. -/
def read (scan : Scan) : List SqlToken → Aliases × List PathToken
  | [] => (scan.aliases, [])
  | token :: rest =>
    let following := (scan.next token).read rest
    (following.1, ⟨token, scan.marks token rest⟩ :: following.2)

/-- The scan behind a token list. -/
def run (scan : Scan) (tokens : List SqlToken) : Scan :=
  tokens.foldl next scan

/-- The scan of a query up to its first token. -/
def start : Scan :=
  ⟨.outside, []⟩

/-- One more token is read on its own. -/
theorem read_cons (scan : Scan) (token : SqlToken) (rest : List SqlToken) :
    scan.read (token :: rest) =
      let following := (scan.next token).read rest
      (following.1, ⟨token, scan.marks token rest⟩ :: following.2) :=
  -- One step of the reading, by definition.
  rfl

/-- Two scans read the same if they take the first token the same way. -/
theorem read_congr {scan other : Scan} {tokens : List SqlToken}
    (aliases : scan.aliases = other.aliases)
    (same : ∀ token ∈ tokens.head?, scan.next token = other.next token ∧
      ∀ rest, scan.marks token rest = other.marks token rest) :
    scan.read tokens = other.read tokens := by
  cases tokens with
  | nil => simp [read, aliases]
  | cons token rest =>
    -- Once the first token is read, both scans are in the same state.
    obtain ⟨next, marks⟩ := same token rfl
    rw [read_cons, read_cons, next, marks]

/-- The scan behind an alias, if one is read. -/
def behindAlias (aliases : Aliases) (entity : Option String) : Option String → Scan
  | some name => ⟨.declared, (name, entity) :: aliases⟩
  | none => ⟨.declared, aliases⟩

/-- Behind a declaration its alias is known, if it has one. -/
theorem behindAlias_eq (aliases : Aliases) (entity name : Option String) :
    behindAlias aliases entity name =
      ⟨.declared, match name with
        | some name => (name, entity) :: aliases
        | none => aliases⟩ := by
  -- The alias is added, or none is there to be added.
  cases name <;> rfl

/-- What a token list reads as where an alias may stand. -/
def readBehind (aliases : Aliases) (entity : Option String) (tokens : List SqlToken) :
    Aliases × List PathToken :=
  let named := readAlias reserved tokens
  let following := (behindAlias aliases entity named.1).read named.2
  (following.1, (upTo tokens named.2).map outside ++ following.2)

variable {aliases : Aliases} {entity : Option String} {token : SqlToken}
  {tokens rest : List SqlToken} {path : OpenPath}

/-- What is read of an alias belongs to no path. -/
theorem readBehind_append {front : List SqlToken} {name : Option String}
    (aliased : readAlias reserved (front ++ rest) = (name, rest)) :
    readBehind aliases entity (front ++ rest) =
      let following := (behindAlias aliases entity name).read rest
      (following.1, front.map outside ++ following.2) := by
  -- The tokens of the alias are those in front of the rest, and all are outside.
  simp only [readBehind, aliased, upTo_append]

/-- Where no alias may stand, a declaration is over. -/
theorem read_aliasing_none
    (noAlias : ∀ token ∈ tokens.head?, ∀ name ∈ token.ident?, lower name ∈ reserved) :
    (Scan.mk (.aliasing entity) aliases).read tokens = (Scan.mk .declared aliases).read tokens := by
  -- Taking no alias up, the scan does with the next token what it does behind a declaration.
  refine read_congr rfl fun token first => ⟨?_, fun _ => rfl⟩
  change bind aliases entity token = close aliases token
  rw [bind]
  split
  · rfl
  · rename_i name named
    rw [if_pos (List.contains_iff_mem.mpr (noAlias token first name named))]

/-- An alias is taken up for its entity. -/
theorem read_aliasing_some {name : String} (named : token.ident? = some name)
    (free : lower name ∉ reserved) (rest : List SqlToken) :
    (Scan.mk (.aliasing entity) aliases).read (token :: rest) =
      let following := (Scan.mk .declared ((lower name, entity) :: aliases)).read rest
      (following.1, outside token :: following.2) := by
  -- The name is free, so the scan puts it in front of the aliases.
  have step : (Scan.mk (.aliasing entity) aliases).next token =
      ⟨.declared, (lower name, entity) :: aliases⟩ := by
    change bind aliases entity token = _
    simp [bind, named, free]
  rw [read_cons, step]
  rfl

/-- Behind the word for an alias, one may stand as behind the path. -/
theorem read_aliasing_as (isAs : token.isKeyword "as" = true) (rest : List SqlToken) :
    readBehind aliases entity (token :: rest) =
      let following := (Scan.mk (.aliasing entity) aliases).read rest
      (following.1, outside token :: following.2) := by
  have skipped : skip "as" (token :: rest) = rest := by simp [skip, isAs]
  -- A name that is not reserved is the alias; anything else stays for what follows.
  by_cases free : ∃ first after name, rest = first :: after ∧ first.ident? = some name ∧
      lower name ∉ reserved
  · obtain ⟨first, after, name, rfl, named, free⟩ := free
    have aliased : readAlias reserved ([token, first] ++ after) = (some (lower name), after) := by
      simp [readAlias, skipped, named, free]
    rw [read_aliasing_some named free]
    exact readBehind_append aliased
  · have noAlias : ∀ first ∈ rest.head?, ∀ name ∈ first.ident?, lower name ∈ reserved := by
      intro first isFirst name named
      by_contra unreserved
      obtain ⟨after, rfl⟩ := List.head?_eq_some_iff.mp isFirst
      exact free ⟨first, after, name, rfl, named, unreserved⟩
    have aliased : readAlias reserved ([token] ++ rest) = (none, rest) := by
      rw [List.singleton_append, readAlias, skipped]
      cases rest with
      | nil => rfl
      | cons first after =>
        cases named : first.ident? with
        | none => simp [named]
        | some name => simp [named, noAlias first rfl name named]
    rw [read_aliasing_none noAlias]
    exact readBehind_append aliased

/-- An alias may stand right behind a path. -/
theorem read_aliasing (noAs : startsWith "as" tokens = false) :
    (Scan.mk (.aliasing entity) aliases).read tokens = readBehind aliases entity tokens := by
  by_cases free : ∃ first after name, tokens = first :: after ∧ first.ident? = some name ∧
      lower name ∉ reserved
  · obtain ⟨first, after, name, rfl, named, free⟩ := free
    have aliased : readAlias reserved ([first] ++ after) = (some (lower name), after) :=
      readAlias_named (.inr rfl) named noAs free
    rw [read_aliasing_some named free]
    exact (readBehind_append aliased).symm
  -- No first token is a name that may be an alias, so the declaration is closed there.
  · have noAlias : IsNoAlias reserved tokens := by
      refine ⟨noAs, fun first isFirst name named => ?_⟩
      by_contra unreserved
      obtain ⟨after, rfl⟩ := List.head?_eq_some_iff.mp isFirst
      exact free ⟨first, after, name, rfl, named, unreserved⟩
    rw [read_aliasing_none noAlias.noName]
    have aliased : readAlias reserved ([] ++ tokens) = (none, tokens) :=
      readAlias_none (.inr rfl) noAlias
    exact (readBehind_append aliased).symm

/-- Behind a segment that no dot follows, the path is over. -/
theorem read_segment (ends : tokens.head? ≠ some (.punctuation '.')) :
    (Scan.mk (.segment path) aliases).read tokens = readBehind aliases path.entity tokens := by
  -- The word for an alias is passed over first, as a path is over without a dot.
  by_cases isAs : startsWith "as" tokens = true
  · cases tokens with
    | nil => cases isAs
    | cons token rest =>
      rw [startsWith_cons] at isAs
      have noDot : token ≠ .punctuation '.' := fun same => ends (congrArg some same)
      rw [read_aliasing_as isAs, read_cons]
      simp [next, marks, isAs, noDot, outside]
  · rw [Bool.not_eq_true] at isAs
    rw [← read_aliasing isAs]
    refine read_congr rfl fun token first => ?_
    obtain ⟨rest, rfl⟩ := List.head?_eq_some_iff.mp first
    rw [startsWith_cons] at isAs
    have noDot : token ≠ .punctuation '.' := fun same => ends (congrArg some same)
    simp [next, marks, begins, isAs, noDot]

/-- Behind a dot that no segment follows, the path is over. -/
theorem read_dot_nameless (nameless : ∀ token ∈ tokens.head?, token.ident? = none) :
    (Scan.mk (.dot path) aliases).read tokens = readBehind aliases path.entity tokens := by
  -- Without a name behind the dot the path ends, and no `AS` comes either.
  have noAs : startsWith "as" tokens = false := by
    cases tokens with
    | nil => rfl
    | cons token rest =>
      rw [startsWith_cons]
      have absent := nameless token rfl
      cases token <;> first | rfl | simp [ident?] at absent
  rw [← read_aliasing noAs]
  refine read_congr rfl fun token first => ?_
  have absent := nameless token first
  simp [next, bind, marks, begins, absent]

/-- Nothing is in front of a list in itself. -/
theorem upTo_self (tokens : List SqlToken) : upTo tokens tokens = [] := by
  simp [upTo]

/-- A list begins with a token and with what it begins with behind that. -/
theorem upTo_cons (shorter : rest.length ≤ tokens.length) :
    upTo (token :: tokens) rest = token :: upTo tokens rest := by
  rw [upTo, upTo, List.length_cons, Nat.succ_sub shorter, List.take_succ_cons]

/-- Segments may be taken up one by one. -/
theorem extend_cons (path : OpenPath) (name : String) (names : List String) :
    path.extend (name :: names) = (path.extend [name]).extend names := by
  -- Both keep the last segment and remember whether there are several.
  cases names with
  | nil => rfl
  | cons second names =>
    simp only [OpenPath.extend, List.getLast?_cons_cons]
    cases last : (second :: names).getLast? with
    | none => simp at last
    | some last => rfl

/-- Behind a dot all segments that follow are read, and then the alias. -/
theorem read_dot (path : OpenPath) (tokens : List SqlToken) :
    (Scan.mk (.dot path) aliases).read tokens =
      let following := readBehind aliases (path.extend (readPath tokens).1).entity
        (readPath tokens).2
      (following.1, (upTo tokens (readPath tokens).2).map (⟨·, path.known⟩) ++ following.2) := by
  fun_induction readPath tokens generalizing path with
  | case1 =>
    rw [read_dot_nameless (by simp)]
    rfl
  | case2 token rest nameless =>
    rw [read_dot_nameless (by simpa using nameless)]
    simp [upTo, OpenPath.extend]
  | case3 token name named after following ih =>
    -- The segment and the dot behind it belong to the path, and so does what is read behind.
    have segment : (Scan.mk (.dot path) aliases).next token =
        ⟨.segment (path.extend [name]), aliases⟩ := by
      simp only [next, named]
    have dot : (Scan.mk (.segment (path.extend [name])) aliases).next (.punctuation '.') =
        ⟨.dot (path.extend [name]), aliases⟩ := rfl
    have shorter : following.2.length ≤ after.length := readPath_length after
    have front : upTo (token :: .punctuation '.' :: after) following.2 =
        token :: .punctuation '.' :: upTo after following.2 := by
      rw [upTo_cons (Nat.le_succ_of_le shorter), upTo_cons shorter]
    rw [read_cons, segment, read_cons, dot, ih (path.extend [name])]
    dsimp only
    have deep : (path.extend [name]).deep = true := rfl
    have known : (path.extend [name]).known = path.known := rfl
    have joined := extend_cons path name following.1
    rw [front, joined]
    simp [marks, named, deep, known, following]
  | case4 token rest name named noDot =>
    have segment : (Scan.mk (.dot path) aliases).next token =
        ⟨.segment (path.extend [name]), aliases⟩ := by
      simp only [next, named]
    have ends : rest.head? ≠ some (.punctuation '.') := by
      intro first
      obtain ⟨after, same⟩ := List.head?_eq_some_iff.mp first
      exact noDot after same
    rw [read_cons, segment, read_segment ends]
    simp [marks, named, upTo]

/-- A segment follows where a path begins. -/
theorem continues_eq (tokens : List SqlToken) :
    continues tokens = !(readPath tokens).1.isEmpty := by
  -- A path has a segment just where its first token is a name.
  fun_cases readPath tokens with
  | case1 => rfl
  | case2 token rest nameless => simp [continues, nameless]
  | case3 token name named after following => simp [continues, named]
  | case4 token rest name named => simp [continues, named]

/-- Nothing is taken up for a path without segments. -/
theorem readPath_empty (empty : (readPath tokens).1 = []) : (readPath tokens).2 = tokens := by
  fun_cases readPath tokens with
  | case1 => rfl
  | case2 => rfl
  | case3 token name named after => simp [readPath_dot named] at empty
  -- A name without a dot behind it is a path of one segment.
  | case4 token rest name named noDot =>
    rw [readPath_single named fun first =>
      have ⟨after, same⟩ := List.head?_eq_some_iff.mp first
      noDot after same] at empty
    cases empty

/-- An association is a path of several segments whose first one is an alias that is known. -/
theorem entity_extend (known : Bool) (name : String) (names : List String) :
    ((OpenPath.mk known false name).extend names).entity =
      if !names.isEmpty && known then none else (name :: names).getLast? := by
  -- Extended by one name or more, the path has several segments.
  cases names with
  | nil => rfl
  | cons second names =>
    obtain ⟨last, isLast⟩ : ∃ last, (second :: names).getLast? = some last :=
      ⟨_, List.getLast?_eq_some_getLast (List.cons_ne_nil _ _)⟩
    simp [OpenPath.extend, OpenPath.entity, OpenPath.isAssociation, isLast]

/-- What is read where a declaration is due, if a path begins there. -/
theorem read_due {head : String} {more : List String} (found : (readPath tokens).1 = head :: more) :
    (Scan.mk .due aliases).read tokens =
      let association := !more.isEmpty && (aliases.lookup (lower head)).isSome
      let following := readBehind aliases (if association then none else (head :: more).getLast?)
        (readPath tokens).2
      (following.1, (upTo tokens (readPath tokens).2).map (⟨·, association⟩) ++ following.2) := by
  rcases tokens with - | ⟨token, rest⟩
  · rw [readPath_nameless (by simp)] at found
    cases found
  cases named : token.ident? with
  | none =>
    rw [readPath_nameless (by simpa using named)] at found
    cases found
  | some name =>
    have segment : (Scan.mk .due aliases).next token =
        ⟨.segment ⟨(aliases.lookup (lower name)).isSome, false, name⟩, aliases⟩ := by
      simp only [next, begin, named]
    -- A dot leads on to further segments; without one the path is its head alone.
    by_cases dotted : rest.head? = some (.punctuation '.')
    · obtain ⟨after, rfl⟩ := List.head?_eq_some_iff.mp dotted
      have path := readPath_dot named after
      obtain ⟨rfl, rfl⟩ : name = head ∧ (readPath after).1 = more := by simpa [path] using found
      have dot (path : OpenPath) : (Scan.mk (.segment path) aliases).next (.punctuation '.') =
          ⟨.dot path, aliases⟩ := rfl
      have shorter := readPath_length after
      have front : upTo (token :: .punctuation '.' :: after) (readPath after).2 =
          token :: .punctuation '.' :: upTo after (readPath after).2 := by
        rw [upTo_cons (Nat.le_succ_of_le shorter), upTo_cons shorter]
      rw [read_cons, segment, read_cons, dot, read_dot, path]
      dsimp only
      rw [front]
      simp only [entity_extend, marks, begins, knows, continues_eq, named, Option.any_some]
      generalize (aliases.lookup (lower name)).isSome = known
      cases segments : (readPath after).1 with
      | nil => simp [segments, readPath_empty segments, upTo_self]
      | cons second names => simp [segments]
    · have path := readPath_single named dotted
      obtain ⟨rfl, rfl⟩ : name = head ∧ [] = more := by simpa [path] using found
      rw [read_cons, segment, read_segment dotted, path]
      simp [marks, begins, dotted, upTo, OpenPath.entity, OpenPath.isAssociation]

/-- Where a declaration is due and nothing is named, none is read. -/
theorem read_due_nameless (found : (readPath tokens).1 = []) :
    (Scan.mk .due aliases).read tokens = (Scan.mk .outside aliases).read tokens := by
  -- With no name at the front the scan marks the next token as one outside and goes on.
  refine read_congr rfl fun token first => ?_
  obtain ⟨rest, rfl⟩ := List.head?_eq_some_iff.mp first
  have nameless : token.ident? = none := by
    by_contra named
    have begins := continues_eq (token :: rest)
    simp [continues, found, named] at begins
  simp [next, begin, marks, begins, knows, nameless]

/-- Behind a declaration that no comma follows, none is due. -/
theorem read_declared (ends : tokens.head? ≠ some (.punctuation ',')) :
    (Scan.mk .declared aliases).read tokens = (Scan.mk .outside aliases).read tokens := by
  -- Only a comma makes another declaration due, and the token is none.
  refine read_congr rfl fun token first => ⟨?_, fun _ => rfl⟩
  have noComma : token ≠ .punctuation ',' := fun same => ends (same ▸ first)
  simp [next, close, noComma]

/-- Behind an introducing word a declaration is due, with or without another word in front. -/
theorem read_introduced (tokens : List SqlToken) :
    (Scan.mk .introduced aliases).read tokens =
      let following := (Scan.mk .due aliases).read (skip "fetch" tokens)
      (following.1, (upTo tokens (skip "fetch" tokens)).map outside ++ following.2) := by
  -- The word between belongs to no declaration, and is read as a token outside.
  cases fetched : startsWith "fetch" tokens with
  | true =>
    cases tokens with
    | nil => cases fetched
    | cons token rest =>
      rw [startsWith_cons] at fetched
      have skipped : skip "fetch" (token :: rest) = rest := by simp [skip, fetched]
      have front : upTo (token :: rest) rest = [token] := upTo_append [token] rest
      rw [skipped, front, read_cons]
      simp [next, marks, begins, fetched, outside]
  | false =>
    have skipped : skip "fetch" tokens = tokens := by simp [skip, fetched]
    rw [skipped, upTo_self]
    refine read_congr rfl fun token first => ?_
    obtain ⟨rest, rfl⟩ := List.head?_eq_some_iff.mp first
    rw [startsWith_cons] at fetched
    simp [next, marks, begins, knows, fetched]

/-- What a token list declares is what the scan of it reads. -/
theorem declare_eq_read (declaring : Bool) (aliases : Aliases) (tokens : List SqlToken) :
    declare declaring aliases tokens =
      (mk (if declaring then .due else .outside) aliases).read tokens := by
  -- Step by step: each case of the declarations is a run of steps of the scan.
  fun_induction declare declaring aliases tokens with
  | case1 aliases tokens path found ih =>
    rw [ih]
    exact (read_due_nameless found).symm
  | case2 aliases tokens path head more found shorter association named notLonger entity known
      front after rest less following ih =>
    have scanned : behindAlias aliases entity named.1 = ⟨.declared, known⟩ :=
      behindAlias_eq aliases entity named.1
    have comma : (Scan.mk .declared known).next (.punctuation ',') = ⟨.due, known⟩ := rfl
    have later : (Scan.mk .due known).read after = following := ih.symm
    have behind : readBehind aliases entity path.2 =
        (following.1, (upTo path.2 named.2).map outside ++
          outside (.punctuation ',') :: following.2) := by
      change (((behindAlias aliases entity named.1).read named.2).1, _ ++
        ((behindAlias aliases entity named.1).read named.2).2) = _
      rw [scanned, rest, read_cons, comma, later]
      rfl
    rw [if_pos rfl, read_due found]
    change _ = ((readBehind aliases entity path.2).1, _ ++ (readBehind aliases entity path.2).2)
    rw [behind, List.append_assoc]
    rfl
  | case3 aliases tokens path head more found shorter association named notLonger entity known
      front noComma less following ih =>
    have scanned : behindAlias aliases entity named.1 = ⟨.declared, known⟩ :=
      behindAlias_eq aliases entity named.1
    have ends : named.2.head? ≠ some (.punctuation ',') := fun first =>
      have ⟨after, same⟩ := List.head?_eq_some_iff.mp first
      noComma after same
    have later : (Scan.mk .outside known).read named.2 = following := ih.symm
    have behind : readBehind aliases entity path.2 =
        (following.1, (upTo path.2 named.2).map outside ++ following.2) := by
      change (((behindAlias aliases entity named.1).read named.2).1, _ ++
        ((behindAlias aliases entity named.1).read named.2).2) = _
      rw [scanned, read_declared ends, later]
    rw [if_pos rfl, read_due found]
    change _ = ((readBehind aliases entity path.2).1, _ ++ (readBehind aliases entity path.2).2)
    rw [behind, List.append_assoc]
    rfl
  | case4 declaring aliases outside => rfl
  | case5 declaring aliases outside token rest starts after less following ih =>
    have introduced : (Scan.mk .outside aliases).next token = ⟨.introduced, aliases⟩ := by
      simp [next, pass, starts]
    have later : (Scan.mk .due aliases).read (skip "fetch" rest) = following := ih.symm
    rw [if_neg outside, read_cons, introduced, read_introduced, later]
    rfl
  | case6 declaring aliases outside token rest plain following ih =>
    have passed : (Scan.mk .outside aliases).next token = ⟨.outside, aliases⟩ := by
      simp [next, pass, plain]
    have later : (Scan.mk .outside aliases).read rest = following := ih.symm
    rw [if_neg outside, read_cons, passed, later]
    rfl

end Scan

end Jpql

end IndexAudit
