import IndexAudit.Proofs.Sql.Key

/-!
How the reader gets from one part of a statement to the next.

Words that may be left out are told from what stands behind them. So what is read hangs on the parts
alone, whatever words are between them, as long as no name begins with one of these words itself.
-/

namespace IndexAudit

namespace IndexStatement

open SqlToken
open scoped Computability

/-! Names. -/

/-- A name that no dot follows is the last one of its path. -/
theorem readQualified_last {token : SqlToken} {text : String} {rest : List SqlToken}
    (named : token.ident? = some text) (ends : rest.head? ≠ some (.punctuation '.')) :
    readQualified (token :: rest) = (some text, rest) := by
  -- With no dot behind it, the name itself is the result.
  rw [readQualified.eq_def]
  simp only [named]
  split
  · contradiction
  · simp at ends
  · rename_i same _
    rw [Option.some.inj same]

/-- A name that a dot follows is a schema. -/
theorem readQualified_dot {token : SqlToken} {text : String} (named : token.ident? = some text)
    (rest : List SqlToken) :
    readQualified (token :: .punctuation '.' :: rest) = readQualified rest := by
  -- The dot behind the name tells that the path goes on.
  rw [readQualified.eq_def]
  simp only [named]

/-- The name of a table or an index behind those of the schemas that it is in, keywords or not. -/
inductive IsPath : String → List SqlToken → Prop
  | last {token : SqlToken} {text : String} (named : token.ident? = some text) :
      IsPath text [token]
  | inside {schema : SqlToken} {text : String} {path : List SqlToken}
      (named : schema.ident?.isSome = true) (later : IsPath text path) :
      IsPath text (schema :: .punctuation '.' :: path)

namespace IsPath

variable {text : String} {path rest : List SqlToken}

/-- A path is read up to its last name. -/
theorem readQualified_eq (isPath : IsPath text path)
    (ends : rest.head? ≠ some (.punctuation '.')) :
    readQualified (path ++ rest) = (some text, rest) := by
  -- Schemas are passed one by one, and the last name is read.
  induction isPath with
  | last named => exact readQualified_last named ends
  | inside named later ih =>
    obtain ⟨name, isSchema⟩ := Option.isSome_iff_exists.mp named
    exact (readQualified_dot isSchema _).trans ih

/-- A path begins with an identifier, which is the whole of it or in front of a dot. -/
theorem begins (isPath : IsPath text path) : ∃ first more, path = first :: more ∧
    first.ident?.isSome = true ∧ (more = [] ∨ more.head? = some (.punctuation '.')) := by
  -- By the two forms of a path: one name, or a schema and a dot in front of a path.
  cases isPath with
  | last named => exact ⟨_, [], rfl, by simp [named], .inl rfl⟩
  | inside named later => exact ⟨_, _, rfl, named, .inr rfl⟩

/-- What a path begins with is told by the path. -/
theorem startsWith_append (isPath : IsPath text path) (word : String) (rest : List SqlToken) :
    startsWith word (path ++ rest) = startsWith word path := by
  -- A path has a first token, which alone is compared.
  obtain ⟨first, more, rfl, -⟩ := isPath.begins
  rfl

/-- A path does not begin with a dot. -/
theorem head?_ne (isPath : IsPath text path) (rest : List SqlToken) :
    (path ++ rest).head? ≠ some (.punctuation '.') := by
  -- It begins with an identifier, and a dot is none.
  obtain ⟨first, more, rfl, named, -⟩ := isPath.begins
  rintro same
  obtain rfl := Option.some.inj same
  cases named

/-- The tokens of a path are plain. -/
theorem isPlain (isPath : IsPath text path) : ∀ token ∈ path, IsPlain token := by
  -- Names and dots are plain.
  induction isPath with
  | last named => exact List.forall_mem_singleton.mpr (isPlain_of_ident named)
  | inside named later ih =>
    obtain ⟨name, isSchema⟩ := Option.isSome_iff_exists.mp named
    exact List.forall_mem_cons.mpr
      ⟨isPlain_of_ident isSchema, List.forall_mem_cons.mpr ⟨isPlain_dot, ih⟩⟩

end IsPath

/-- A name with its schemas is a path. -/
theorem isPath_of_qualified {text : String} {tokens : List SqlToken}
    (written : tokens ∈ qualified text) : IsPath text tokens := by
  obtain ⟨schemas, areSchemas, last, isName, rfl⟩ := written
  obtain ⟨token, named, -, rfl⟩ := mem_name isName
  obtain ⟨parts, rfl, all⟩ := Language.mem_kstar.mp areSchemas
  clear areSchemas
  -- The name is the last one, and each schema in front of it is one name and one dot.
  induction parts with
  | nil => exact .last named
  | cons part parts ih =>
    obtain ⟨⟨_, ⟨other, isOther⟩, _, rfl, rfl⟩, later⟩ := List.forall_mem_cons.mp all
    obtain ⟨first, namedFirst, -, rfl⟩ := mem_name isOther
    simp only [List.flatten_cons, List.cons_append, List.nil_append] at ih ⊢
    exact .inside (by simp [namedFirst]) (ih later)

/-! Words that may be left out. -/

/-- A keyword is no mark. -/
theorem head?_ne_of_isKeyword {token : SqlToken} {word : String}
    (found : token.isKeyword word = true) (c : Char) (rest : List SqlToken) :
    (token :: rest).head? ≠ some (.punctuation c) := by
  -- Only bare words are keywords.
  rintro same
  obtain rfl := Option.some.inj same
  simp [isKeyword] at found

/-- The words for what is there already are passed over in front of what is not taken for them. -/
theorem skipIfNotExists_phrase {tokens rest : List SqlToken}
    (optionally : tokens ∈ optional Statement.ifNotExists)
    (apart : skipIfNotExists rest = rest) : skipIfNotExists (tokens ++ rest) = rest := by
  -- With the three words all are skipped, and without them nothing is taken for them.
  rcases mem_optional.mp optionally with ⟨_, ⟨first, isIf, rfl⟩, _, ⟨_, ⟨second, isNot, rfl⟩, _,
    ⟨third, doesExist, rfl⟩, rfl⟩, rfl⟩ | rfl
  · simp [skipIfNotExists, isIf, isNot, doesExist]
  · exact apart

/-- A phrase that may be left out and begins with a keyword is told from other keywords. -/
theorem startsWith_optional {word other : String} {phrase : Language SqlToken}
    {tokens rest : List SqlToken} (optionally : tokens ∈ optional (keyword word * phrase))
    (apart : eqIgnoringAsciiCase word other = false) (noneBehind : startsWith other rest = false) :
    startsWith other (tokens ++ rest) = false := by
  -- The phrase begins with its own keyword, or what is behind it comes first.
  rcases mem_optional.mp optionally with ⟨_, ⟨first, found, rfl⟩, _, -, rfl⟩ | rfl
  · exact (isKeyword_other found).trans apart
  · exact noneBehind

/-- The phrase of some given tokens alone. -/
def exactly (tokens : List SqlToken) : Language SqlToken :=
  {other | other = tokens}

/-- An identifier that nothing is known about, a keyword or not. -/
def someIdentifier : Language SqlToken :=
  {tokens | ∃ text, tokens ∈ identifier text}

/-! Created indexes. -/

/-- The name of an index, if it has one. -/
def IsIndexName (given : Option String) (named : List SqlToken) : Prop :=
  given = none ∧ named = [] ∨ ∃ text, given = some text ∧ IsPath text named

/-- What stands behind the words that create an index, in parts between which words may be put. -/
structure IndexBody where
  given : Option String
  table : String
  named : List SqlToken
  on : SqlToken
  path : List SqlToken
  /-- What is listed in brackets, and all that follows. -/
  listed : List SqlToken
  isNamed : IsIndexName given named
  isOn : on.isKeyword "on" = true
  isPath : IsPath table path
  isListed : listed.head? = some (.punctuation '(')
  /-- A name begins with none of the words that may stand in its place, which SQL reserves. -/
  apart : startsWith "concurrently" named = false ∧ startsWith "on" named = false ∧
    startsWith "only" path = false

namespace IndexBody

variable (body : IndexBody)

/-- The parts with any words put in between them. -/
def worded : Language SqlToken :=
  optional (keyword "concurrently") * optional Statement.ifNotExists * exactly body.named *
    exactly [body.on] * optional (keyword "only") * exactly body.path *
    optional (keyword "using" * someIdentifier) * exactly body.listed

/-- The index that is created, unless its brackets are left open. -/
def definition? (isUnique : Bool) : Option IndexDefinition :=
  (readBracketed? body.listed).map fun (list, after) =>
    { name := body.given.getD (IndexDefinition.generatedName body.table (indexColumns list) "idx")
      table := body.table
      columns := indexColumns list
      isUnique := isUnique
      isPartial := after.any (·.isKeyword "where") }

section Words

variable {concurrent guard only method : List SqlToken}
  (isConcurrent : concurrent ∈ optional (keyword "concurrently"))
  (isGuard : guard ∈ optional Statement.ifNotExists) (isOnly : only ∈ optional (keyword "only"))
  (isMethod : method ∈ optional (keyword "using" * someIdentifier))
include isConcurrent isGuard isOnly isMethod

/-- Each word is put in at its place. -/
theorem mem_worded :
    concurrent ++ (guard ++ (body.named ++ ([body.on] ++ (only ++ (body.path ++
      (method ++ body.listed)))))) ∈ body.worded := by
  -- Each part of the phrase is one of the given tokens, in this order.
  simp only [worded, mul_assoc]
  exact ⟨_, isConcurrent, _, ⟨_, isGuard, _, ⟨_, rfl, _, ⟨_, rfl, _, ⟨_, isOnly, _, ⟨_, rfl, _,
    ⟨_, isMethod, _, rfl, rfl⟩, rfl⟩, rfl⟩, rfl⟩, rfl⟩, rfl⟩, rfl⟩

end Words

/-- In front of `ON` stands another keyword only if the name begins with it. -/
theorem startsWith_named {word : String} (apart : eqIgnoringAsciiCase "on" word = false)
    (free : startsWith word body.named = false) (rest : List SqlToken) :
    startsWith word (body.named ++ body.on :: rest) = false := by
  -- Without a name `ON` comes first, and with one the name decides.
  cases named : body.named with
  | nil => exact (isKeyword_other body.isOn).trans apart
  | cons first more =>
    rw [named] at free
    exact free

/-- The name of an index is not taken for `IF NOT EXISTS`, though it may begin with `IF`. -/
theorem skipIfNotExists_named (rest : List SqlToken) :
    skipIfNotExists (body.named ++ body.on :: rest) =
      body.named ++ body.on :: rest := by
  refine if_neg ?_
  rcases body.isNamed with ⟨-, unnamed⟩ | ⟨text, -, isPath⟩
  · have noIf : body.on.isKeyword "if" = false :=
      (isKeyword_other body.isOn).trans (by decide)
    simp [unnamed, noIf]
  · -- Behind the first name stands a dot or `ON`, and neither is `NOT`.
    have noNot : body.on.isKeyword "not" = false :=
      (isKeyword_other body.isOn).trans (by decide)
    obtain ⟨first, more, named, -, single | dotted⟩ := isPath.begins
    · simp [named, single, noNot]
    · obtain ⟨later, rfl⟩ := List.head?_eq_some_iff.mp dotted
      simp [named, isKeyword]

/-- The name of the index is read up to `ON`. -/
theorem readName_named (rest : List SqlToken) :
    (if startsWith "on" (body.named ++ body.on :: rest) then
        (none, body.named ++ body.on :: rest)
      else readQualified (body.named ++ body.on :: rest)) =
      (body.given, body.on :: rest) := by
  -- Without a name `ON` comes first, and a name does not begin with that word.
  rcases body.isNamed with ⟨noName, unnamed⟩ | ⟨text, named, isPath⟩
  · simp [noName, unnamed, body.isOn]
  · have free : startsWith "on" (body.named ++ body.on :: rest) = false :=
      (isPath.startsWith_append "on" _).trans body.apart.2.1
    rw [free, if_neg (by simp), named,
      isPath.readQualified_eq (head?_ne_of_isKeyword body.isOn '.' rest)]

/-- The method is passed over up to what is listed. -/
theorem opening_listed {method : List SqlToken}
    (optionally : method ∈ optional (keyword "using" * someIdentifier)) :
    (if startsWith "using" (method ++ body.listed) then (method ++ body.listed).drop 2
      else method ++ body.listed) = body.listed := by
  -- The method is two tokens, and what is listed begins with a bracket.
  rcases mem_optional.mp optionally with ⟨_, ⟨first, isUsing, rfl⟩, _, ⟨text, isMethod⟩, rfl⟩ | rfl
  · obtain ⟨token, -, rfl⟩ := mem_identifier.mp isMethod
    simp [isUsing]
  · obtain ⟨rest, bracket⟩ := List.head?_eq_some_iff.mp body.isListed
    simp [bracket, isKeyword]

/-- Neither a method nor what is listed begins with a dot. -/
theorem head?_ne_listed {method : List SqlToken}
    (optionally : method ∈ optional (keyword "using" * someIdentifier)) :
    (method ++ body.listed).head? ≠ some (.punctuation '.') := by
  -- A method begins with a keyword, and what is listed with a bracket.
  rcases mem_optional.mp optionally with ⟨_, ⟨first, isUsing, rfl⟩, _, -, rfl⟩ | rfl
  · exact head?_ne_of_isKeyword isUsing '.' _
  · simp [body.isListed]

/-- An index is read from its parts, whatever words are put in. -/
theorem ofCreateIndex_worded (isUnique : Bool) {tokens : List SqlToken}
    (written : tokens ∈ body.worded) :
    ofCreateIndex isUnique tokens = body.definition? isUnique := by
  simp only [worded, mul_assoc] at written
  obtain ⟨concurrent, isConcurrent, _, ⟨guard, isGuard, _, ⟨_, rfl, _, ⟨_, rfl, _, ⟨only, isOnly, _,
    ⟨_, rfl, _, ⟨method, isMethod, _, rfl, rfl⟩, rfl⟩, rfl⟩, rfl⟩, rfl⟩, rfl⟩, rfl⟩ := written
  obtain ⟨noConcurrent, -, noOnly⟩ := body.apart
  -- Each word is told from what stands behind it.
  have notConcurrent : ∀ rest, startsWith "concurrently"
      (guard ++ (body.named ++ body.on :: rest)) = false := fun rest =>
    startsWith_optional isGuard (by decide) (body.startsWith_named (by decide) noConcurrent rest)
  have notOnly : ∀ rest, startsWith "only" (body.path ++ rest) = false := fun rest =>
    (body.isPath.startsWith_append "only" rest).trans noOnly
  have noDot := body.head?_ne_listed isMethod
  simp only [List.cons_append, List.nil_append, ofCreateIndex]
  rw [skip_optional isConcurrent (notConcurrent _),
    skipIfNotExists_phrase isGuard (body.skipIfNotExists_named _), body.readName_named]
  simp only [startsWith_cons, body.isOn, Bool.not_true, Bool.false_eq_true, if_false,
    List.drop_succ_cons, List.drop_zero, skip_optional isOnly (notOnly _),
    body.isPath.readQualified_eq noDot, body.opening_listed isMethod, Option.bind_eq_bind,
    Option.bind_some, definition?]
  cases readBracketed? body.listed <;> rfl

end IndexBody

/-! Altered tables. -/

/-- What the reader goes on with behind the words in front of the name of an altered table. -/
def behindWords (tokens : List SqlToken) : List SqlToken :=
  let start := skip "only" tokens
  if startsWith "if" start then skip "exists" (start.drop 1) else start

/-- The keys that actions add to a table. -/
def keysOf (table : String) (actions : List (List SqlToken)) : List IndexDefinition :=
  actions.filterMap fun action =>
    if startsWith "add" action then ofTableElement table (action.drop 1) else none

/-- Behind the words the name of the table is read, and what is done to it behind the name. -/
theorem ofAlterTable_eq (tokens : List SqlToken) :
    ofAlterTable tokens = (readQualified (behindWords tokens)).1.elim []
      (keysOf · (splitCommas (readQualified (behindWords tokens)).2)) := by
  -- The two differ in where they put the case that no table is named.
  simp only [ofAlterTable, behindWords]
  split <;> simp_all [keysOf]

/-- A table is read by its last name. -/
theorem ofAlterTable_path {table : String} {path tokens actions : List SqlToken}
    (isPath : IsPath table path) (ends : actions.head? ≠ some (.punctuation '.'))
    (behind : behindWords tokens = path ++ actions) :
    ofAlterTable tokens = keysOf table (splitCommas actions) := by
  -- Behind the words stands the path, and then the actions.
  rw [ofAlterTable_eq, behind, isPath.readQualified_eq ends, Option.elim_some]

/-- The words that the reader passes over in front of the name of an altered table. -/
def neutralWords : Language SqlToken :=
  optional (keyword "only") * optional (keyword "if" * keyword "exists")

/-- All of these words may be missing. -/
theorem nil_mem_neutralWords : [] ∈ neutralWords :=
  -- Neither of the two phrases has to be there.
  ⟨[], .inr rfl, [], .inr rfl, rfl⟩

/-- The words for a table that may be missing are passed over. -/
theorem skipIfExists_optional {tokens rest : List SqlToken}
    (optionally : tokens ∈ optional (keyword "if" * keyword "exists"))
    (apart : startsWith "if" rest = false) :
    (if startsWith "if" (tokens ++ rest) then skip "exists" ((tokens ++ rest).drop 1)
      else tokens ++ rest) = rest := by
  -- Both words are passed, or neither is there and the rest begins with another one.
  rcases mem_optional.mp optionally with ⟨_, ⟨first, isIf, rfl⟩, _, ⟨second, doesExist, rfl⟩, rfl⟩ |
    rfl
  · simp [isIf, doesExist, skip]
  · simp [apart]

/-- Words that are passed over are told from what stands behind them. -/
theorem behindWords_neutral {words rest : List SqlToken} (areWords : words ∈ neutralWords)
    (free : ∀ word ∈ ["only", "if"], startsWith word rest = false) :
    behindWords (words ++ rest) = rest := by
  -- The two phrases are passed one by one, each told from what comes behind it.
  obtain ⟨only, isOnly, guard, isGuard, rfl⟩ := areWords
  have noOnly : startsWith "only" (guard ++ rest) = false :=
    startsWith_optional isGuard (by decide) (free "only" (by simp))
  rw [List.append_assoc]
  simp only [behindWords]
  rw [skip_optional isOnly noOnly, skipIfExists_optional isGuard (free "if" (by simp))]

end IndexStatement

end IndexAudit
