import IndexAudit.Naming
import IndexAudit.Nesting
import IndexAudit.Text.Search

/-!
Queries that a repository method carries in its name.

A name is a subject, a predicate of properties with conditions, and an order.
-/

namespace IndexAudit

/-- What a derived query does with the rows it selects. -/
inductive QueryIntent where
  | find
  | stream
  | count
  | exists
  | delete
deriving Repr, DecidableEq

/-- One way in which the name of a derived query may begin, up to the word `By`. -/
structure QuerySubject where
  head : String
  /-- Whether a row limit in digits may follow the head. -/
  limited : Bool
  intent : QueryIntent
deriving Repr, DecidableEq

/-- A method name taken apart. -/
structure DerivedQuery where
  intent : QueryIntent
  /-- The properties it refers to, in order. -/
  properties : List String
deriving Repr, DecidableEq

/-- Why a method name cannot be taken apart. -/
inductive MethodNameError where
  /-- The connectors of a predicate are only looked for in ASCII. -/
  | predicateNotAscii
deriving Repr, DecidableEq

namespace QuerySubject

/-- The ways in which the name of a derived query may begin. -/
def all : List QuerySubject :=
  [⟨"find", false, .find⟩, ⟨"findAll", false, .find⟩, ⟨"findDistinct", false, .find⟩,
    ⟨"findAllDistinct", false, .find⟩, ⟨"findFirst", true, .find⟩, ⟨"findTop", true, .find⟩,
    ⟨"findDistinctFirst", true, .find⟩, ⟨"findDistinctTop", true, .find⟩,
    ⟨"read", false, .find⟩, ⟨"readAll", false, .find⟩, ⟨"readFirst", true, .find⟩,
    ⟨"readTop", true, .find⟩, ⟨"get", false, .find⟩, ⟨"getAll", false, .find⟩,
    ⟨"getFirst", true, .find⟩, ⟨"getTop", true, .find⟩, ⟨"query", false, .find⟩,
    ⟨"queryAll", false, .find⟩, ⟨"search", false, .find⟩, ⟨"searchAll", false, .find⟩,
    ⟨"stream", false, .stream⟩, ⟨"streamAll", false, .stream⟩, ⟨"streamFirst", true, .stream⟩,
    ⟨"streamTop", true, .stream⟩, ⟨"count", false, .count⟩, ⟨"countAll", false, .count⟩,
    ⟨"countDistinct", false, .count⟩, ⟨"exists", false, .exists⟩, ⟨"delete", false, .delete⟩,
    ⟨"deleteAll", false, .delete⟩, ⟨"remove", false, .delete⟩, ⟨"removeAll", false, .delete⟩]

/-- What follows a subject and the word `By` in a method name that begins with them. -/
def after? (subject : QuerySubject) (method : List Char) : Option (List Char) := do
  let rest ← afterStart? subject.head.toList method
  -- A row limit stands between the head and the word.
  afterStart? ['B', 'y'] (if subject.limited then rest.dropWhile Char.isDigit else rest)

/-- The subjects that a method name begins with, each with what follows it. -/
def matching (method : List Char) : List (QuerySubject × List Char) :=
  all.filterMap fun subject => (subject.after? method).map (subject, ·)

/-- The longer of two matches; of equally long ones the later. -/
def longer (best next : QuerySubject × List Char) : QuerySubject × List Char :=
  if best.1.head.length ≤ next.1.head.length then next else best

/-- The intent of the longest subject that a method name begins with, and what follows it. -/
def read? (method : List Char) : Option (QueryIntent × List Char) :=
  match matching method with
  | [] => none
  | first :: rest =>
    let best := rest.foldl longer first
    some (best.1.intent, best.2)

end QuerySubject

namespace DerivedQuery

/-- The conditions that may end a part of a predicate, longest first. -/
def conditions : List String :=
  ["StartingWithIgnoreCase", "ContainingIgnoreCase", "EndingWithIgnoreCase",
    "ContainsIgnoreCase", "IsGreaterThanEqual", "GreaterThanEqual", "IsLessThanEqual",
    "IsStartingWith", "IsGreaterThan", "AllIgnoreCase", "LessThanEqual", "IsContaining",
    "IsEndingWith", "StartingWith", "GreaterThan", "IsNotEmpty", "IsLessThan", "IgnoreCase",
    "Containing", "EndingWith", "StartsWith", "IsBetween", "IsNotNull", "IsNotLike", "NotEmpty",
    "LessThan", "IsBefore", "EndsWith", "Contains", "IsEmpty", "IsAfter", "Between", "NotNull",
    "NotLike", "IsFalse", "IsNotIn", "IsNull", "IsLike", "IsTrue", "Before", "Equals", "IsNot",
    "False", "After", "Empty", "NotIn", "IsIn", "Like", "True", "Null", "Not", "Is", "In"]

/-- The words that say in which direction results are ordered. -/
def directions : List String :=
  ["Desc", "Asc"]

/-- The word between a predicate and an order. -/
def orderBy : List Char := "OrderBy".toList

/-- Whether a capitalised word begins a text. -/
def startsCapital (text : List Char) : Bool :=
  text.head?.any Char.isUpper

/-- What follows the connector that a text begins with, if a capitalised word does. -/
def afterConnector? : List Char → Option (List Char)
  -- In names such as `Android` or `Order` no capital follows, so these hold no connector.
  | 'A' :: 'n' :: 'd' :: rest => if startsCapital rest then some rest else none
  | 'O' :: 'r' :: rest => if startsCapital rest then some rest else none
  | _ => none

/-- What follows a connector is shorter than what it begins. -/
theorem afterConnector?_length {text rest : List Char} (found : afterConnector? text = some rest) :
    rest.length < text.length := by
  -- Each connector found takes two characters or more.
  unfold afterConnector? at found
  split at found
  · split at found
    · cases found
      simp only [List.length_cons]
      omega
    · cases found
  · split at found
    · cases found
      simp only [List.length_cons]
      omega
    · cases found
  · cases found

/-- The parts of a predicate between its connectors, empty ones included. -/
def parts (text : List Char) : List (List Char) :=
  match found : afterConnector? text with
  | some rest =>
    have := afterConnector?_length found
    [] :: parts rest
  | none =>
    match text with
    | [] => [[]]
    | c :: rest => Cut.extendFirst c (parts rest)
termination_by text.length

/-- The parts of a predicate between its connectors, which must be ASCII to be told apart. -/
def splitPredicate (text : List Char) : Except MethodNameError (List (List Char)) :=
  if text.all (·.val < 0x80) then .ok ((parts text).filter (!·.isEmpty))
  else .error .predicateNotAscii

/-- A text without the first of several endings that is a proper one. -/
def dropEnding (endings : List String) (text : List Char) : List Char :=
  match endings.find? fun ending =>
    ending.length < text.length && ending.toList.isSuffixOf text with
  | some ending => text.take (text.length - ending.length)
  | none => text

/-- A part of a predicate without its condition; one that names a property stays whole. -/
def stripCondition (isProperty : String → Bool) (part : List Char) : List Char :=
  if isProperty (String.ofList (decapitalizeChars part)) then part else dropEnding conditions part

/-- The field that results are ordered by, without the direction. -/
def orderField (order : List Char) : List (List Char) :=
  let field := dropEnding directions order
  if field.isEmpty then [] else [field]

/--
The derived query that a method name stands for; a name without a subject stands for none.

`isProperty` says which property names the entity has.
-/
def ofMethodName (isProperty : String → Bool) (method : List Char) :
    Except MethodNameError (Option DerivedQuery) :=
  match QuerySubject.read? method with
  | none => .ok none
  | some (intent, rest) => do
    let (predicate, order) :=
      match splitAtText? orderBy rest with
      | some (predicate, order) => (predicate, orderField order)
      | none => (rest, [])
    -- Connectors are looked for in the predicate alone; an order is one property.
    let tokens ← splitPredicate predicate
    let named := tokens.map (stripCondition isProperty) ++ order
    return some ⟨intent, named.map fun part => String.ofList (decapitalizeChars part)⟩

end DerivedQuery

end IndexAudit
