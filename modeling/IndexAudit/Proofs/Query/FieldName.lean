import IndexAudit.Proofs.Query.Jpql
import IndexAudit.Proofs.Text.Search
import IndexAudit.Query.Repository

/-!
The two ways in which a query names a field.

The name of a method has the field with a capital behind its subject, and a query over entities has
it behind an alias. Both are looked up in the same mapping.
-/

namespace IndexAudit

/-- The name of a field, in ASCII: a small letter, and letters and digits behind it. -/
structure FieldName where
  first : Char
  more : List Char
  isLower : first.isLower = true
  parts : ∀ c ∈ more, c.isAlphanum = true

namespace FieldName

/-- The name as it is declared. -/
def text (field : FieldName) : String :=
  String.ofList (field.first :: field.more)

/-- The name as it stands in the name of a method, with a capital. -/
def capitalized (field : FieldName) : List Char :=
  field.first.toUpper :: field.more

/-- The name of the method that finds by the field. -/
def finder (field : FieldName) : List Char :=
  "findBy".toList ++ field.capitalized

/-- The query over an entity for those with a given value of the field. -/
def selection (field : FieldName) (entity given : String) : String :=
  "SELECT " ++ given ++ " FROM " ++ entity ++ " " ++ given ++ " WHERE " ++ given ++ "." ++
    field.text ++ " = :p"

/-- Nothing in the capitalised name divides it: no word for an order, and no connector. -/
structure IsWhole (field : FieldName) : Prop where
  noOrder : ¬ DerivedQuery.orderBy <:+: field.capitalized
  noConnector : ∀ connector ∈ ["And", "Or"], ∀ c : Char, c.isUpper = true →
    ¬ connector.toList ++ [c] <:+: field.capitalized

/-- A small letter is in ASCII. -/
theorem toNat_first (field : FieldName) : field.first.toNat < 0x80 :=
  -- A small letter is a letter.
  toNat_of_isAlphanum (by unfold Char.isAlphanum Char.isAlpha; simp [field.isLower])

/-- A small letter is the lower-case form of its capital. -/
theorem lowerChar_toUpper (field : FieldName) :
    lowerChar field.first.toUpper = [field.first] := by
  -- There are few characters in ASCII, so each of them can be looked at.
  have each := ascii_imp (p := fun c => !c.isLower || lowerChar c.toUpper == [c]) field.toNat_first
    (by decide +kernel)
  simpa [field.isLower] using each

/-- The name is what the capitalised one stands for. -/
theorem decapitalize_capitalized (field : FieldName) :
    String.ofList (decapitalizeChars field.capitalized) = field.text := by
  -- The first letter is lowered again, and the others are as they were.
  rw [capitalized, decapitalizeChars, lowerChar_toUpper]
  rfl

/-- The capitalised name is in ASCII. -/
theorem capitalized_ascii (field : FieldName) :
    field.capitalized.all (·.val < 0x80) = true := by
  have below : ∀ c : Char, c.toNat < 0x80 → decide (c.val < 0x80) = true := fun c ascii =>
    decide_eq_true (UInt32.lt_iff_toNat_lt.mpr ascii)
  have first : field.first.toUpper.toNat < 0x80 := by
    -- The capital of an ASCII letter is looked up among the ASCII characters.
    have each := ascii_imp (p := fun c => decide (c.toUpper.toNat < 0x80)) field.toNat_first
      (by decide +kernel)
    simpa using each
  rw [capitalized, List.all_cons, below _ first, Bool.true_and, List.all_eq_true]
  exact fun c listed => below c (toNat_of_isAlphanum (field.parts c listed))

end FieldName

namespace DerivedQuery

/-- A connector counts only in front of a capital. -/
theorem isPrefix_of_afterConnector? {text rest : List Char}
    (found : afterConnector? text = some rest) :
    ∃ connector ∈ ["And", "Or"], ∃ c : Char, c.isUpper = true ∧
      connector.toList ++ [c] <+: text := by
  have capital : ∀ rest : List Char, startsCapital rest = true →
      ∃ c more, rest = c :: more ∧ c.isUpper = true := by
    intro rest starts
    obtain ⟨c, first, isUpper⟩ := (Option.any_eq_true _ _).mp starts
    obtain ⟨more, rfl⟩ := List.head?_eq_some_iff.mp first
    exact ⟨c, more, rfl, isUpper⟩
  -- The two connectors are the two cases in which anything is found.
  unfold afterConnector? at found
  split at found
  case h_1 rest =>
    split at found
    case isTrue starts =>
      obtain ⟨c, more, rfl, isUpper⟩ := capital rest starts
      exact ⟨"And", by simp, c, isUpper, more, rfl⟩
    case isFalse => cases found
  case h_2 rest =>
    split at found
    case isTrue starts =>
      obtain ⟨c, more, rfl, isUpper⟩ := capital rest starts
      exact ⟨"Or", by simp, c, isUpper, more, rfl⟩
    case isFalse => cases found
  case h_3 => cases found

/-- A character that begins no connector belongs to the part behind it. -/
theorem parts_cons {c : Char} {text : List Char} (none : afterConnector? (c :: text) = none) :
    parts (c :: text) = Cut.extendFirst c (parts text) := by
  -- No connector ends the part here, so the second equation applies.
  rw [parts.eq_def]
  split
  case h_1 found => simp [none] at found
  case h_2 => rfl

/-- A predicate without connectors is one part. -/
theorem parts_whole {text : List Char} (noConnector : ∀ connector ∈ ["And", "Or"],
      ∀ c : Char, c.isUpper = true → ¬ connector.toList ++ [c] <:+: text) :
    parts text = [text] := by
  induction text with
  | nil =>
    rw [parts.eq_def]
    rfl
  | cons c text ih =>
    -- The first character begins no connector, and any later one would be in the rest too.
    have none : afterConnector? (c :: text) = none := by
      by_contra found
      obtain ⟨rest, found⟩ := Option.ne_none_iff_exists'.mp found
      obtain ⟨connector, listed, d, isUpper, inFront⟩ := isPrefix_of_afterConnector? found
      exact noConnector connector listed d isUpper inFront.isInfix
    have whole := ih fun connector listed d isUpper inside =>
      noConnector connector listed d isUpper (inside.trans (List.suffix_cons c text).isInfix)
    rw [parts_cons none, whole]
    rfl

end DerivedQuery

namespace FieldName

/-- The subject of the method is read, and the capitalised name is left. -/
theorem read?_finder (field : FieldName) :
    QuerySubject.read? field.finder = some (.find, field.capitalized) := by
  -- Of all subjects only this one begins the method name.
  have matching : QuerySubject.matching field.finder =
      [(⟨"find", false, .find⟩, field.capitalized)] := by
    rfl
  rw [QuerySubject.read?, matching]
  rfl

/-- The method asks for the field itself, even where its name ends in a condition. -/
theorem ofMethodName_finder {field : FieldName} (whole : field.IsWhole)
    (isProperty : String → Bool) (known : isProperty field.text = true) :
    DerivedQuery.ofMethodName isProperty field.finder = .ok (some ⟨.find, [field.text]⟩) := by
  have unordered : splitAtText? DerivedQuery.orderBy field.capitalized = none := by
    rw [← Option.not_isSome_iff_eq_none, splitAtText?_isSome_iff]
    exact whole.noOrder
  -- The name holds no connector, so the predicate is one part.
  have divided : DerivedQuery.splitPredicate field.capitalized = .ok [field.capitalized] := by
    rw [DerivedQuery.splitPredicate, if_pos field.capitalized_ascii,
      DerivedQuery.parts_whole whole.noConnector]
    rfl
  -- A known property keeps an ending that would be a condition elsewhere.
  have kept : DerivedQuery.stripCondition isProperty field.capitalized = field.capitalized := by
    rw [DerivedQuery.stripCondition, decapitalize_capitalized, if_pos known]
  rw [DerivedQuery.ofMethodName, read?_finder]
  simp [unordered, divided, kept, decapitalize_capitalized]

/-- The method refers to the column of the field alone. -/
theorem derivedColumns_finder {field : FieldName} (whole : field.IsWhole)
    {mapping : TableMapping} {column : String} (mapped : mapping.column? field.text = some column) :
    Repository.derivedColumns mapping field.finder = [⟨mapping.tableName, column⟩] := by
  -- The name is analyzed to the field alone, which is mapped to this column.
  have read := ofMethodName_finder whole
    (fun name => (mapping.column? name).isSome) (by simp [mapped])
  simp [Repository.derivedColumns, read, TableMapping.resolve, mapped]

end FieldName

namespace SqlToken

/-- Whether a text is a bare identifier. -/
def IsWord (text : String) : Prop :=
  ∃ c more, text = String.ofList (c :: more) ∧ startsWord c = true ∧
    ∀ d ∈ more, continuesWord d = true

/-- An identifier is spelled as it is, up to a character that it does not go on with. -/
theorem IsWord.spells {text : String} (isWord : IsWord text) {c : Char} {rest : List Char}
    {tokens : List SqlToken} (ends : continuesWord c = false) (later : Spells tokens (c :: rest)) :
    Spells (.word text :: tokens) (text.toList ++ c :: rest) := by
  -- An identifier is its first character and those that go on with it.
  obtain ⟨first, more, rfl, starts, parts⟩ := isWord
  rw [String.toList_ofList]
  exact .token (.word starts parts (by simpa using ends)) later

end SqlToken

namespace FieldName

open SqlToken

/-- The name of a field is a bare identifier. -/
theorem isWord (field : FieldName) : IsWord field.text := by
  -- A small letter begins a word, and letters and digits go on with it.
  have starts : startsWord field.first = true := by
    have each := ascii_imp (p := fun c => !c.isLower || startsWord c) field.toNat_first
      (by decide +kernel)
    simpa [field.isLower] using each
  refine ⟨field.first, field.more, rfl, starts, fun c listed => ?_⟩
  have plain := field.parts c listed
  have each := ascii_imp (p := fun c => !c.isAlphanum || continuesWord c)
    (toNat_of_isAlphanum plain) (by decide +kernel)
  simpa [plain] using each

/-- The tokens of the condition on the field. -/
def condition (field : FieldName) (given : String) : List SqlToken :=
  [.word "WHERE", .word given, .punctuation '.', .word field.text, .operator "=", .parameter]

/-- The tokens of the query for a value of the field. -/
def selectionTokens (field : FieldName) (entity given : String) : List SqlToken :=
  .word "SELECT" :: .word given :: .word "FROM" :: .word entity :: .word given ::
    field.condition given

/-- The query is spelled as its tokens. -/
theorem spells_selection (field : FieldName) {entity given : String} (named : IsWord entity)
    (aliased : IsWord given) :
    Spells (field.selectionTokens entity given) (field.selection entity given).toList := by
  have space : continuesWord ' ' = false := by decide +kernel
  have blank : isBlank ' ' = true := by decide +kernel
  have keyword : ∀ word ∈ ["SELECT", "FROM", "WHERE"], IsWord word := by
    intro word listed
    simp only [List.mem_cons, List.not_mem_nil, or_false] at listed
    rcases listed with rfl | rfl | rfl <;>
      exact ⟨_, _, rfl, by decide +kernel, by decide +kernel⟩
  -- The query is put together from its end.
  have value : Spells [.operator "=", .parameter] " = :p".toList :=
    (show tokenize " = :p".toList = [.operator "=", .parameter] by decide +kernel) ▸
      spells_tokenize _
  have path : Spells [.word given, .punctuation '.', .word field.text, .operator "=", .parameter]
      (given.toList ++ '.' :: (field.text.toList ++ " = :p".toList)) :=
    aliased.spells (by decide +kernel)
      (.token (.punctuation (by simp)) (field.isWord.spells space value))
  have restricted := (keyword "WHERE" (by simp)).spells space (.blank blank path)
  have declaration := named.spells space (.blank blank (aliased.spells space (.blank blank restricted)))
  have clause := (keyword "FROM" (by simp)).spells space (.blank blank declaration)
  have query := (keyword "SELECT" (by simp)).spells space (.blank blank
    (aliased.spells space (.blank blank clause)))
  have text : (field.selection entity given).toList =
      "SELECT ".toList ++ given.toList ++ " FROM ".toList ++ entity.toList ++ " ".toList ++
        given.toList ++ " WHERE ".toList ++ given.toList ++ ".".toList ++ field.text.toList ++
        " = :p".toList := by
    delta selection
    simp only [String.toList_append]
  rw [text]
  simpa [selectionTokens, condition] using query

/-- Nothing is declared from a field on, even where it is a word that introduces declarations. -/
theorem declare_value (token : SqlToken) (aliases : Jpql.Aliases) :
    Jpql.declare false aliases [token, .operator "=", .parameter] =
      (aliases, [token, .operator "=", .parameter].map Jpql.outside) := by
  have value : Jpql.declare false aliases [.operator "=", .parameter] =
      (aliases, [.operator "=", .parameter].map Jpql.outside) := by
    rw [Jpql.declare_other (by decide), Jpql.declare_other (by decide), Jpql.declare_nil]
    rfl
  cases introduced : Jpql.introduces token with
  | false =>
    rw [Jpql.declare_other introduced, value]
    rfl
  | true =>
    -- A declaration is due, but no name follows.
    have due : Jpql.declare true aliases [.operator "=", .parameter] =
        Jpql.declare false aliases [.operator "=", .parameter] := by
      have nameless : Jpql.readPath [.operator "=", .parameter] =
          ([], [.operator "=", .parameter]) :=
        Jpql.readPath_nameless (by simp [SqlToken.ident?])
      rw [Jpql.declare.eq_def]
      simp only [if_true]
      split
      case h_1 => rfl
      case h_2 found => simp [nameless] at found
    have step : Jpql.declare false aliases (token :: ([] ++ [.operator "=", .parameter])) = _ :=
      Jpql.declare_introduces introduced (.inr rfl) rfl
    rw [List.nil_append, due, value] at step
    exact step

/-- A name that is not reserved introduces no declaration. -/
theorem introduces_word {given : String} (unreserved : lower given ∉ Jpql.reserved) :
    Jpql.introduces (.word given) = false :=
  -- All words that introduce declarations are reserved.
  isOneOf_of_ident rfl (by decide) fun listed =>
    unreserved ((by decide : ["from", "join", "update"] ⊆ Jpql.reserved) listed)

/-- The query declares its alias for the entity, and nothing else. -/
theorem declare_selection (field : FieldName) {entity given : String}
    (noFetch : (SqlToken.word entity).isKeyword "fetch" = false)
    (unreserved : lower given ∉ Jpql.reserved) :
    Jpql.declare false [] (field.selectionTokens entity given) =
      ([(lower given, some entity)], (field.selectionTokens entity given).map Jpql.outside) := by
  have plain := introduces_word unreserved
  -- The condition introduces nothing, so the alias stays the only one.
  have restricted : Jpql.declare false [(lower given, some entity)] (field.condition given) =
      ([(lower given, some entity)], (field.condition given).map Jpql.outside) := by
    rw [condition, Jpql.declare_other (by decide), Jpql.declare_other plain,
      Jpql.declare_other (by decide), declare_value]
    rfl
  -- Behind the introducing word, the entity is followed by its alias.
  have declares : Jpql.Declares [] ⟨given, some entity⟩
      ([.word entity, .word given].map Jpql.outside) :=
    .entity rfl noFetch ⟨[], .inr rfl, _, ⟨unreserved, .inl rfl⟩, rfl⟩
  have declared : Jpql.declare true [] (.word entity :: .word given :: field.condition given) =
      ([(lower given, some entity)],
        (.word entity :: .word given :: field.condition given).map Jpql.outside) := by
    have read : Jpql.declare true [] (.word entity :: .word given :: field.condition given) =
        let following := Jpql.declare false [(lower given, some entity)] (field.condition given)
        (following.1, [.word entity, .word given].map Jpql.outside ++ following.2) :=
      Jpql.declare_declares declares (field.condition given)
    rw [read, restricted]
    rfl
  have clause : Jpql.declare false [] (.word "FROM" ::
      ([] ++ .word entity :: .word given :: field.condition given)) = _ :=
    Jpql.declare_introduces (by decide) (.inr rfl) noFetch
  rw [List.nil_append, declared] at clause
  rw [selectionTokens, Jpql.declare_other (by decide), Jpql.declare_other plain, clause]
  rfl

/-- The query refers to the column of the field alone, whatever its alias is. -/
theorem columns_selection (field : FieldName) {entity given : String} {mappings : Mappings}
    {mapping : TableMapping} {column : String} (found : mappings.find entity = some mapping)
    (mapped : mapping.column? field.text = some column) (named : IsWord entity)
    (noFetch : (SqlToken.word entity).isKeyword "fetch" = false) (aliased : IsWord given)
    (unreserved : lower given ∉ Jpql.reserved) :
    Jpql.columns mappings (field.selection entity given) = [⟨mapping.tableName, column⟩] := by
  -- The text is read as these tokens, with one declaration and one condition.
  have read : SqlToken.ofString (field.selection entity given) =
      field.selectionTokens entity given :=
    tokenize_of_spells (field.spells_selection named aliased)
  rw [Jpql.columns, read, field.declare_selection noFetch unreserved]
  simp [selectionTokens, condition, Jpql.references, Jpql.outside, SqlToken.ident?, found, mapped,
    TableMapping.resolve]

/--
The two ways to name a field of an entity refer to the same column.

The method that finds by the field is a derived query, also where the name of the field ends in a
word for a condition; and a query selects by the field through any alias. Neither refers to anything
else.
-/
theorem methodColumns_field {field : FieldName} (whole : field.IsWhole) {entity : String}
    {mappings : Mappings} {mapping : TableMapping} {column : String}
    (found : mappings.find entity = some mapping)
    (mapped : mapping.column? field.text = some column) :
    (∀ notes : List AnnotationUse,
      (∀ note ∈ notes, note.name ≠ "Query".toList ∧ note.name ≠ "NativeQuery".toList) →
        Repository.methodColumns mappings mapping field.finder notes =
          (.derived, [⟨mapping.tableName, column⟩])) ∧
    (IsWord entity → (SqlToken.word entity).isKeyword "fetch" = false →
      ∀ given, IsWord given → lower given ∉ Jpql.reserved →
        Jpql.columns mappings (field.selection entity given) = [⟨mapping.tableName, column⟩]) := by
  constructor
  case left =>
    intro notes plain
    -- A method without a query of its own is read from its name.
    have none : notes.find? (fun note => note.name == "Query".toList ||
        note.name == "NativeQuery".toList) = none := by
      rw [List.find?_eq_none]
      intro note listed
      rw [Bool.or_eq_true, beq_iff_eq, beq_iff_eq, not_or]
      exact plain note listed
    rw [Repository.methodColumns]
    simp only [none, derivedColumns_finder whole mapped]
  case right =>
    intro named noFetch given aliased unreserved
    exact field.columns_selection found mapped named noFetch aliased unreserved

/-- A field whose name ends in a word for a condition. -/
def loggedIn : FieldName where
  first := 'l'
  more := "oggedIn".toList
  isLower := by decide
  parts := by decide

/-- The field is not taken for one that is asked to be in a list. -/
theorem methodColumns_field_loggedIn :
    let mapping := TableMapping.ofDeclared "User" "users" [("loggedIn", "is_online")]
    Repository.methodColumns [mapping] mapping "findByLoggedIn".toList [] =
        (.derived, [⟨"users", "is_online"⟩]) ∧
      Jpql.columns [mapping] "SELECT u FROM User u WHERE u.loggedIn = :p" =
        [⟨"users", "is_online"⟩] := by
  intro mapping
  have whole : loggedIn.IsWhole := by
    constructor
    case noOrder => decide +kernel
    -- The name of the field has neither connector, whatever letter is behind it.
    case noConnector =>
      intro connector listed c isUpper inside
      have absent : ∀ connector ∈ ["And", "Or"], ¬ connector.toList <:+: loggedIn.capitalized := by
        decide +kernel
      exact absent connector listed ((List.prefix_append _ _).isInfix.trans inside)
  have found : Mappings.find [mapping] "User" = some mapping := by decide +kernel
  have mapped : mapping.column? loggedIn.text = some "is_online" := by decide +kernel
  obtain ⟨method, query⟩ := methodColumns_field whole found mapped
  have user : IsWord "User" :=
    ⟨'U', "ser".toList, by decide +kernel, by decide +kernel, by decide +kernel⟩
  have given : IsWord "u" := ⟨'u', [], by decide +kernel, by decide +kernel, by simp⟩
  exact ⟨method [] (by simp), query user (by decide +kernel) "u" given (by decide +kernel)⟩

end FieldName

end IndexAudit
