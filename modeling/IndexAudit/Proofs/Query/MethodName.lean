import IndexAudit.Proofs.Offset.Derived
import IndexAudit.Proofs.Query.FieldName
import Mathlib.Data.List.Pairwise

/-!
The name of a derived query is taken apart into what it was put together from.

A subject, the word `By`, properties with connectors between them and an order stand behind each
other without anything that separates them. What is read of each property is the property without
its condition, and no two subjects begin the same name.
-/

namespace IndexAudit

/-! Endings. -/

/-- An ending that leaves something in front of it. -/
def EndsProperly (ending : String) (text : List Char) : Prop :=
  ∃ kept, kept ≠ [] ∧ text = kept ++ ending.toList

/-- What ends properly in something is longer than that, and ends in it. -/
theorem endsProperly_iff {ending : String} {text : List Char} :
    EndsProperly ending text ↔
      (ending.length < text.length && ending.toList.isSuffixOf text) = true := by
  rw [Bool.and_eq_true, decide_eq_true_eq, List.isSuffixOf_iff_suffix, ← String.length_toList]
  -- What is kept in front is not empty just if the text is longer than its end.
  constructor
  · rintro ⟨kept, filled, rfl⟩
    have positive := List.length_pos_iff.mpr filled
    exact ⟨by rw [List.length_append]; omega, List.suffix_append _ _⟩
  · rintro ⟨longer, kept, rfl⟩
    refine ⟨kept, ?_, rfl⟩
    rintro rfl
    simp at longer

namespace DerivedQuery

/-- The longer endings come first in a list of endings. -/
def LongestFirst (endings : List String) : Prop :=
  endings.Pairwise fun earlier later => later.length ≤ earlier.length

instance (endings : List String) : Decidable (LongestFirst endings) :=
  inferInstanceAs (Decidable (endings.Pairwise _))

/-- The longest of several endings is dropped from a text, or none if the text has none of them. -/
theorem dropEnding_cases {endings : List String} (sorted : LongestFirst endings)
    (text : List Char) :
    (dropEnding endings text = text ∧ ∀ ending ∈ endings, ¬ EndsProperly ending text) ∨
      ∃ ending ∈ endings, EndsProperly ending text ∧
        text = dropEnding endings text ++ ending.toList ∧
        ∀ other ∈ endings, EndsProperly other text → other.length ≤ ending.length := by
  unfold dropEnding
  cases found : endings.find? fun ending =>
      ending.length < text.length && ending.toList.isSuffixOf text with
  -- Where the search finds none, no ending fits.
  | none =>
    refine .inl ⟨rfl, fun ending listed ends => ?_⟩
    exact List.find?_eq_none.mp found ending listed (endsProperly_iff.mp ends)
  | some ending =>
    obtain ⟨holds, before, behind, rfl, earlier⟩ := List.find?_eq_some_iff_append.mp found
    have ends := endsProperly_iff.mpr holds
    refine .inr ⟨ending, by simp, ends, ?_, fun other listed otherEnds => ?_⟩
    · obtain ⟨kept, -, rfl⟩ := ends
      simp only [List.length_append, String.length_toList, Nat.add_sub_cancel, List.take_left]
    · -- What comes in front of the ending found is no ending, and what comes behind is no longer.
      have further := (List.pairwise_append.mp sorted).2.1
      rcases List.mem_append.mp listed with inFront | inBack
      · have no := earlier other inFront
        rw [endsProperly_iff.mp otherEnds] at no
        cases no
      · rcases List.mem_cons.mp inBack with rfl | later
        · exact Nat.le_refl _
        · exact (List.pairwise_cons.mp further).1 other later

/-- The conditions are listed with the longer ones first. -/
theorem longestFirst_conditions : LongestFirst conditions := by
  -- The list is fixed, so all pairs in it are compared.
  decide +kernel

/-- The directions are listed with the longer one first. -/
theorem longestFirst_directions : LongestFirst directions := by
  decide

end DerivedQuery

/-! Subjects. -/

namespace QuerySubject

/-- What may come behind a head: the word `By`, or a digit of a limit. -/
def endsHead (c : Char) : Bool :=
  c = 'B' || c.isDigit

/-- Whether two heads differ before one of them ends, or one goes on where the other may end. -/
def areApart : List Char → List Char → Bool
  | [], [] => false
  | [], c :: _ => !endsHead c
  | c :: _, [] => !endsHead c
  | c :: head, d :: other => c != d || areApart head other

/-- Two heads are apart either way round. -/
theorem areApart_comm (head other : List Char) : areApart head other = areApart other head := by
  induction head generalizing other with
  | nil => cases other <;> rfl
  | cons c head ih =>
    cases other with
    | nil => rfl
    -- The first characters differ either way round, or the rest decides.
    | cons d other => rw [areApart, areApart, ih, bne_comm]

/-- No name goes on from two heads that are apart. -/
theorem ne_of_areApart {head other behind after : List Char} {c d : Char}
    (apart : areApart head other = true) (ends : endsHead c = true) (otherEnds : endsHead d = true) :
    head ++ c :: behind ≠ other ++ d :: after := by
  intro same
  -- Both heads are read until they differ, or until one of them ends.
  induction head generalizing other with
  | nil =>
    cases other with
    | nil => cases apart
    | cons e other =>
      obtain rfl : c = e := (List.cons.inj same).1
      simp [areApart, ends] at apart
  | cons e head ih =>
    cases other with
    | nil =>
      obtain rfl : e = d := (List.cons.inj same).1
      simp [areApart, otherEnds] at apart
    | cons f other =>
      obtain rfl : e = f := (List.cons.inj same).1
      rw [areApart, bne_self_eq_false, Bool.false_or] at apart
      exact ih apart (List.cons.inj same).2

/-- All heads are apart. -/
theorem pairwise_areApart :
    all.Pairwise fun subject other => areApart subject.head.toList other.head.toList = true := by
  -- There are few subjects, so their heads are compared.
  have heads : (all.map (·.head.toList)).Pairwise (areApart · · = true) := by decide +kernel
  exact List.pairwise_map.mp heads

/-- Behind the head of a subject that a name begins with comes the word `By`, or a digit. -/
theorem head_of_after? {subject : QuerySubject} {method rest : List Char}
    (found : subject.after? method = some rest) :
    ∃ c behind, method = subject.head.toList ++ c :: behind ∧ endsHead c = true := by
  simp only [after?, Option.bind_eq_bind, Option.bind_eq_some_iff] at found
  obtain ⟨behind, start, word⟩ := found
  rw [← afterStart?_eq_some_iff.mp start]
  have word := afterStart?_eq_some_iff.mp word
  split at word
  -- The word stands there itself, or the head is a number's, which digits follow.
  case isFalse => exact ⟨'B', 'y' :: rest, by rw [← word]; rfl, rfl⟩
  case isTrue =>
    cases behind with
    | nil => cases word
    | cons c behind =>
      by_cases digit : c.isDigit = true
      · exact ⟨c, behind, rfl, by simp [endsHead, digit]⟩
      · rw [List.dropWhile_cons_of_neg digit] at word
        exact ⟨c, behind, rfl, by simp [endsHead, ← (List.cons.inj word).1]⟩

/-- A name begins with one subject only. -/
theorem eq_of_after? {subject other : QuerySubject} (listed : subject ∈ all)
    (otherListed : other ∈ all) {method rest more : List Char}
    (found : subject.after? method = some rest) (otherFound : other.after? method = some more) :
    other = subject := by
  by_contra differs
  -- Two different subjects have heads that are apart, but both begin the name.
  have symmetric : Std.Symm fun subject other : QuerySubject =>
      areApart subject.head.toList other.head.toList = true :=
    ⟨fun first second apart => by rwa [areApart_comm]⟩
  have apart := pairwise_areApart.forall listed otherListed (Ne.symm differs)
  obtain ⟨c, behind, start, ends⟩ := head_of_after? found
  obtain ⟨d, after, otherStart, otherEnds⟩ := head_of_after? otherFound
  exact ne_of_areApart apart ends otherEnds (start.symm.trans otherStart)

/-- No subject is listed twice. -/
theorem nodup_all : all.Nodup := by
  refine pairwise_areApart.imp fun {subject other} apart same => ?_
  -- A head is never apart from itself, and the listed ones are apart in pairs.
  have again : ∀ head, areApart head head = false := by
    intro head
    induction head with
    | nil => rfl
    | cons c head ih => simp [areApart, ih]
  rw [same, again] at apart
  cases apart

/-- The subject that a name begins with is the only one that matches. -/
theorem matching_of_after? {subject : QuerySubject} (listed : subject ∈ all)
    {method rest : List Char} (found : subject.after? method = some rest) :
    matching method = [(subject, rest)] := by
  obtain ⟨before, behind, whole⟩ := List.append_of_mem listed
  have distinct : (before ++ subject :: behind).Nodup := whole ▸ nodup_all
  -- A second subject that matches would be the same one, and each is listed once.
  have others (other : QuerySubject) (otherListed : other ∈ all) (differs : other ≠ subject) :
      (other.after? method).map (other, ·) = none := by
    rw [Option.map_eq_none_iff, ← Option.not_isSome_iff_eq_none, Option.isSome_iff_exists]
    rintro ⟨more, otherFound⟩
    exact differs (eq_of_after? listed otherListed found otherFound)
  obtain ⟨-, there, apart⟩ := List.nodup_append.mp distinct
  have front : before.filterMap (fun other => (other.after? method).map (other, ·)) = [] :=
    List.filterMap_eq_nil_iff.mpr fun other inFront =>
      others other (by simp [whole, inFront]) (apart other inFront subject (by simp))
  have back : behind.filterMap (fun other => (other.after? method).map (other, ·)) = [] :=
    List.filterMap_eq_nil_iff.mpr fun other inBack =>
      others other (by simp [whole, inBack]) fun same =>
        (List.nodup_cons.mp there).1 (same ▸ inBack)
  rw [matching, whole, List.filterMap_append, List.filterMap_cons, found, front, back]
  rfl

/-- No name begins with two subjects. -/
theorem length_matching (method : List Char) : (matching method).length ≤ 1 := by
  match none : matching method with
  | [] => exact Nat.zero_le 1
  | (subject, rest) :: _ =>
    -- The first match is the only one.
    have member : (subject, rest) ∈ matching method := by simp [none]
    obtain ⟨other, listed, found⟩ := List.mem_filterMap.mp member
    obtain ⟨more, otherFound, same⟩ := Option.map_eq_some_iff.mp found
    obtain ⟨rfl, rfl⟩ := Prod.mk.inj same
    rw [← none, matching_of_after? listed otherFound]
    rfl

end QuerySubject

/-! Names as they are put together. -/

/-- A word between two properties. -/
inductive Connector where
  | and
  | or
deriving Repr, DecidableEq

/-- The direction of an order. -/
inductive Direction where
  | ascending
  | descending
deriving Repr, DecidableEq

namespace Connector

/-- A connector as it is written. -/
def text : Connector → List Char
  | and => ['A', 'n', 'd']
  | or => ['O', 'r']

end Connector

namespace Direction

/-- A direction as it is written. -/
def word : Direction → String
  | ascending => "Asc"
  | descending => "Desc"

end Direction

/-- A property in the name of a method, with its condition if it has one. -/
structure PropertyToken where
  text : List Char
  ascii : IsAscii text
  capital : DerivedQuery.startsCapital text = true
  noOrder : ¬ DerivedQuery.orderBy <:+: text
  /-- No connector stands in front of a capital in it. -/
  noConnector : ∀ connector ∈ ["And", "Or"], ∀ c : Char, c.isUpper = true →
    ¬ connector.toList ++ [c] <:+: text

/-- Properties with a connector between every two of them. -/
inductive JoinedTokens where
  | last (token : PropertyToken)
  /-- A property in front of others does not end like a connector. -/
  | join (token : PropertyToken)
    (apart : ∀ connector ∈ ["And", "Or"], ¬ connector.toList <:+ token.text)
    (connector : Connector) (rest : JoinedTokens)

/-- The field that results are ordered by, and the direction if it is given. -/
structure NamedOrder where
  field : List Char
  ascii : IsAscii field
  capital : DerivedQuery.startsCapital field = true
  /-- The field does not end like a direction by itself. -/
  undirected : ∀ direction ∈ DerivedQuery.directions, ¬ direction.toList <:+ field
  direction : Option Direction

/-- The parts that the name of a derived query is put together from. -/
structure DerivedName where
  subject : QuerySubject
  listed : subject ∈ QuerySubject.all
  /-- The row limit in digits, for subjects that have one. -/
  limit : List Char
  digits : ∀ c ∈ limit, c.isDigit = true
  unlimited : subject.limited = false → limit = []
  predicate : Option JoinedTokens
  order : Option NamedOrder

namespace JoinedTokens

/-- Properties as they are written. -/
def text : JoinedTokens → List Char
  | last token => token.text
  | join token _ connector rest => token.text ++ (connector.text ++ rest.text)

/-- The properties in their order. -/
def tokens : JoinedTokens → List (List Char)
  | last token => [token.text]
  | join token _ _ rest => token.text :: rest.tokens

end JoinedTokens

namespace NamedOrder

/-- The field and its direction as they are written. -/
def text (order : NamedOrder) : List Char :=
  order.field ++ (order.direction.map (·.word.toList)).getD []

end NamedOrder

namespace DerivedName

/-- What stands behind the subject: the properties and the order. -/
def body (name : DerivedName) : List Char :=
  (name.predicate.map (·.text)).getD [] ++
    (name.order.map fun order => DerivedQuery.orderBy ++ order.text).getD []

/-- The name as it is written. -/
def text (name : DerivedName) : List Char :=
  name.subject.head.toList ++ (name.limit ++ ('B' :: 'y' :: name.body))

/-- The properties in their order. -/
def tokens (name : DerivedName) : List (List Char) :=
  (name.predicate.map (·.tokens)).getD []

end DerivedName

/-- What is read of a property: all of it if it is known, or what its longest condition leaves. -/
inductive Keeps (isProperty : String → Bool) (token : List Char) : List Char → Prop
  | known (isKnown : isProperty (String.ofList (decapitalizeChars token)) = true) :
      Keeps isProperty token token
  | whole (unknown : isProperty (String.ofList (decapitalizeChars token)) = false)
      (unconditional : ∀ condition ∈ DerivedQuery.conditions, ¬ EndsProperly condition token) :
      Keeps isProperty token token
  | stripped {kept : List Char} {condition : String}
      (unknown : isProperty (String.ofList (decapitalizeChars token)) = false)
      (listed : condition ∈ DerivedQuery.conditions) (filled : kept ≠ [])
      (parts : token = kept ++ condition.toList)
      (longest : ∀ other ∈ DerivedQuery.conditions, EndsProperly other token →
        other.length ≤ condition.length) :
      Keeps isProperty token kept

namespace DerivedQuery

/-- What is left of a property without its condition is what is to be read of it. -/
theorem keeps_stripCondition (isProperty : String → Bool) (token : List Char) :
    Keeps isProperty token (stripCondition isProperty token) := by
  unfold stripCondition
  split
  -- A property that is known keeps an ending that would be a condition otherwise.
  case isTrue isKnown => exact .known isKnown
  case isFalse unknown =>
    have unknown := Bool.eq_false_iff.mpr unknown
    rcases dropEnding_cases longestFirst_conditions token with
      ⟨same, none⟩ | ⟨condition, listed, ends, parts, longest⟩
    · rw [same]
      exact .whole unknown none
    · refine .stripped unknown listed ?_ parts longest
      -- An ending is proper only behind something, so a property is left.
      rintro empty
      obtain ⟨kept, filled, same⟩ := ends
      rw [empty, same] at parts
      exact filled (List.append_cancel_right parts)

/-! Nothing forms across the borders of what a name is put together from. -/

/-- What comes here begins like a connector does, if anything comes. -/
def BeginsLikeConnector (text : List Char) : Prop :=
  ∀ c ∈ text.head?, c = 'A' ∨ c = 'O'

/-- A word that begins in front of such a text ends in front of it, if only its first letter fits. -/
theorem isPrefix_of_beginsLikeConnector {word front rest : List Char} {c : Char}
    (apart : ∀ d ∈ word.tail, d ≠ 'A' ∧ d ≠ 'O') (behind : BeginsLikeConnector rest)
    (inFront : word <+: c :: (front ++ rest)) : word <+: c :: front := by
  rcases List.prefix_or_prefix_of_prefix inFront
      (show c :: front <+: c :: (front ++ rest) from ⟨rest, rfl⟩) with inside | ⟨more, rfl⟩
  · exact inside
  · rw [← List.cons_append, List.prefix_append_right_inj] at inFront
    cases more with
    | nil => simp
    | cons d more =>
      -- The word would go on with the first letter of what comes behind.
      obtain ⟨after, rfl⟩ := inFront
      have no := apart d (by simp)
      exact absurd (behind d rfl) (by simp [no])

/-- A capital comes behind each connector. -/
theorem afterConnector?_text (connector : Connector) {rest : List Char}
    (capital : startsCapital rest = true) :
    afterConnector? (connector.text ++ rest) = some rest := by
  -- With a capital behind it, each of the two connectors is read as itself.
  cases connector <;> simp [Connector.text, afterConnector?, capital]

/-- No connector begins inside of a property in front of another one. -/
theorem afterConnector?_none {c : Char} {token rest : List Char}
    (noConnector : ∀ connector ∈ ["And", "Or"], ∀ d : Char, d.isUpper = true →
      ¬ connector.toList ++ [d] <:+: c :: token)
    (apart : ∀ connector ∈ ["And", "Or"], ¬ connector.toList <:+ c :: token)
    (behind : BeginsLikeConnector rest) : afterConnector? (c :: (token ++ rest)) = none := by
  by_contra found
  obtain ⟨after, found⟩ := Option.ne_none_iff_exists'.mp found
  obtain ⟨connector, listed, d, isUpper, inFront⟩ := isPrefix_of_afterConnector? found
  have tails : ∀ connector ∈ ["And", "Or"], ∀ d ∈ connector.toList.tail, d ≠ 'A' ∧ d ≠ 'O' := by
    decide
  obtain ⟨more, whole⟩ := isPrefix_of_beginsLikeConnector (tails connector listed) behind
    ((List.prefix_append _ _).trans inFront)
  cases more with
  | nil => exact apart connector listed (by simp [← whole])
  | cons e more =>
    -- The capital behind the connector is still in the property.
    rw [← List.cons_append, ← whole, List.append_assoc, List.prefix_append_right_inj,
      List.cons_append, List.cons_prefix_cons] at inFront
    refine noConnector connector listed d isUpper (List.IsPrefix.isInfix ⟨more, ?_⟩)
    rw [inFront.1, ← whole, List.append_assoc, List.singleton_append]

/-- A property in front of a connector is a part of its own. -/
theorem parts_connector {token : List Char}
    (noConnector : ∀ connector ∈ ["And", "Or"], ∀ c : Char, c.isUpper = true →
      ¬ connector.toList ++ [c] <:+: token)
    (apart : ∀ connector ∈ ["And", "Or"], ¬ connector.toList <:+ token) (connector : Connector)
    {rest : List Char} (capital : startsCapital rest = true) :
    parts (token ++ (connector.text ++ rest)) = token :: parts rest := by
  -- Along the property: behind each of its characters no connector begins.
  induction token with
  | nil =>
    have read := afterConnector?_text connector capital
    rw [List.nil_append, parts.eq_def]
    split
    case h_1 after found =>
      rw [read] at found
      obtain rfl := Option.some.inj found
      rfl
    case h_2 none =>
      rw [read] at none
      cases none
  | cons c token ih =>
    have behind : BeginsLikeConnector (connector.text ++ rest) := by
      cases connector <;> simp [BeginsLikeConnector, Connector.text]
    rw [List.cons_append, parts_cons (afterConnector?_none noConnector apart behind), ih]
    · rfl
    · exact fun word listed d isUpper inside =>
        noConnector word listed d isUpper (inside.trans (List.suffix_cons c token).isInfix)
    · exact fun word listed ends => apart word listed (ends.trans (List.suffix_cons c token))

/-! The first word for an order is the one in front of the order. -/

/-- The word for an order, letter by letter. -/
theorem orderBy_eq : orderBy = ['O', 'r', 'd', 'e', 'r', 'B', 'y'] :=
  rfl

/-- No order is found in a text, and what comes behind it is searched on. -/
def PassesOrder (text rest : List Char) : Prop :=
  splitAtText? orderBy (text ++ rest) =
    (splitAtText? orderBy rest).map fun (before, after) => (text ++ before, after)

/-- A character is passed where the word for an order does not begin. -/
theorem passesOrder_cons {c : Char} {text rest : List Char}
    (apart : ¬ orderBy <+: c :: (text ++ rest)) (later : PassesOrder text rest) :
    PassesOrder (c :: text) rest := by
  -- The word for an order does not start here, so the search goes on behind the character.
  have nothing : afterStart? orderBy (c :: (text ++ rest)) = none := by
    rwa [← Option.not_isSome_iff_eq_none, afterStart?_isSome_iff]
  rw [PassesOrder] at later
  rw [PassesOrder, List.cons_append, splitAtText?, nothing, later]
  cases splitAtText? orderBy rest <;> rfl

/-- Two texts behind each other are passed one by one. -/
theorem PassesOrder.append {front back rest : List Char} (before : PassesOrder front (back ++ rest))
    (behind : PassesOrder back rest) : PassesOrder (front ++ back) rest := by
  rw [PassesOrder] at before behind
  rw [PassesOrder, List.append_assoc, before, behind]
  -- Whether the rest holds an order or not, it is found behind both.
  cases splitAtText? orderBy rest <;> simp

/-- A property is passed in front of a connector, of the order and at the end. -/
theorem passesOrder_token {token rest : List Char} (noOrder : ¬ orderBy <:+: token)
    (behind : BeginsLikeConnector rest) : PassesOrder token rest := by
  induction token with
  | nil =>
    rw [PassesOrder, List.nil_append]
    cases splitAtText? orderBy rest <;> rfl
  | cons c token ih =>
    -- An order that began in the property would lie in it, as none reaches into what follows.
    refine passesOrder_cons (fun inFront => noOrder ?_)
      (ih fun inside => noOrder (inside.trans (List.suffix_cons c token).isInfix))
    exact (isPrefix_of_beginsLikeConnector (by decide) behind inFront).isInfix

/-- A connector is passed in front of a property. -/
theorem passesOrder_connector (connector : Connector) {rest : List Char}
    (capital : startsCapital rest = true) : PassesOrder connector.text rest := by
  have noSmall : ¬ orderBy <+: 'O' :: 'r' :: rest := by
    rintro ⟨after, whole⟩
    obtain rfl : 'd' :: 'e' :: 'r' :: 'B' :: 'y' :: after = rest :=
      (List.cons.inj (List.cons.inj whole).2).2
    exact absurd capital (by simp [startsCapital])
  have nothing : PassesOrder [] rest := by
    rw [PassesOrder, List.nil_append]
    cases splitAtText? orderBy rest <;> rfl
  have letter {c : Char} (other : c ≠ 'O') (text : List Char) : ¬ orderBy <+: c :: text := by
    rintro ⟨after, whole⟩
    exact other (List.cons.inj whole).1.symm
  -- The letters of a connector are passed one by one, and only the first of `Or` begins an order.
  cases connector with
  | and =>
    exact passesOrder_cons (letter (by decide) _) (passesOrder_cons (letter (by decide) _)
      (passesOrder_cons (letter (by decide) _) nothing))
  | or => exact passesOrder_cons noSmall (passesOrder_cons (letter (by decide) _) nothing)

end DerivedQuery

namespace JoinedTokens

open DerivedQuery

/-- Properties begin with a capital. -/
theorem startsCapital_text (joined : JoinedTokens) (rest : List Char) :
    startsCapital (joined.text ++ rest) = true := by
  -- The first property leads, and it begins with a capital.
  have token (token : PropertyToken) (rest : List Char) :
      startsCapital (token.text ++ rest) = true := by
    have capital := token.capital
    cases start : token.text with
    | nil => simp [start, startsCapital] at capital
    | cons c text => simpa [start, startsCapital] using capital
  cases joined with
  | last first => exact token first rest
  | join first _ connector more =>
    rw [text, List.append_assoc]
    exact token first _

/-- Properties are in ASCII. -/
theorem isAscii_text (joined : JoinedTokens) : IsAscii joined.text := by
  induction joined with
  | last token => exact token.ascii
  | join token _ connector _ ih =>
    -- Connectors are in ASCII, and so is each property.
    have plain : IsAscii connector.text := by cases connector <;> decide
    exact isAscii_append.mpr ⟨token.ascii, isAscii_append.mpr ⟨plain, ih⟩⟩

/-- No property is empty. -/
theorem ne_nil_of_mem {joined : JoinedTokens} {token : List Char} (member : token ∈ joined.tokens) :
    token ≠ [] := by
  -- A property begins with a capital, so it has a character.
  have filled (first : PropertyToken) : first.text ≠ [] := by
    intro empty
    have capital := first.capital
    simp [empty, startsCapital] at capital
  induction joined with
  | last first => exact List.mem_singleton.mp member ▸ filled first
  | join first _ _ _ ih =>
    rcases List.mem_cons.mp member with rfl | later
    · exact filled first
    · exact ih later

/-- Properties are told apart at their connectors. -/
theorem parts_text (joined : JoinedTokens) : parts joined.text = joined.tokens := by
  induction joined with
  | last token => exact parts_whole token.noConnector
  | join token apart connector rest ih =>
    -- A connector ends the property, as a capital follows and the property goes on in none.
    have capital := rest.startsCapital_text []
    rw [List.append_nil] at capital
    rw [text, tokens, parts_connector token.noConnector apart connector capital, ih]

/-- Properties are passed in search of the order. -/
theorem passesOrder_text (joined : JoinedTokens) {rest : List Char}
    (behind : BeginsLikeConnector rest) : PassesOrder joined.text rest := by
  induction joined with
  | last token => exact passesOrder_token token.noOrder behind
  | join token _ connector more ih =>
    -- Property, connector and the others are passed one behind the other.
    refine (passesOrder_token token.noOrder ?_).append
      ((passesOrder_connector connector (more.startsCapital_text rest)).append ih)
    cases connector <;> simp [BeginsLikeConnector, Connector.text]

end JoinedTokens

namespace NamedOrder

open DerivedQuery

/-- A field to order by is read without its direction. -/
theorem orderField_text (order : NamedOrder) : orderField order.text = [order.field] := by
  have filled : order.field ≠ [] := by
    intro empty
    have capital := order.capital
    simp [empty, startsCapital] at capital
  have dropped : dropEnding directions order.text = order.field := by
    rcases dropEnding_cases longestFirst_directions order.text with
      ⟨same, none⟩ | ⟨ending, listed, ends, whole, -⟩
    · cases given : order.direction with
      | none => simpa [text, given] using same
      | some direction =>
        have wordListed : direction.word ∈ directions := by cases direction <;> decide
        refine absurd ?_ (none direction.word wordListed)
        exact ⟨order.field, filled, by simp [text, given]⟩
    · cases given : order.direction with
      | none =>
        -- The field itself has no direction at its end.
        obtain ⟨kept, -, same⟩ := ends
        refine absurd ?_ (order.undirected ending listed)
        exact ⟨kept, by simpa [text, given] using same.symm⟩
      | some direction =>
        -- Neither direction ends in the other.
        have only : ending = direction.word := by
          have apart : ∀ first ∈ directions, ∀ second ∈ directions,
              first.toList <:+ second.toList → first = second := by decide
          have wordListed : direction.word ∈ directions := by cases direction <;> decide
          have first : ending.toList <:+ order.text := ⟨_, whole.symm⟩
          have second : direction.word.toList <:+ order.text := ⟨order.field, by simp [text, given]⟩
          rcases List.suffix_or_suffix_of_suffix first second with within | within
          · exact apart ending listed _ wordListed within
          · exact (apart _ wordListed ending listed within).symm
        have both : order.field ++ direction.word.toList =
            dropEnding directions order.text ++ direction.word.toList := by
          rw [← only, ← whole, only]
          simp [text, given]
        exact (List.append_cancel_right both).symm
  rw [orderField, dropped]
  simp [filled]

end NamedOrder

namespace DerivedName

open DerivedQuery

/-- The subject of a name is read, and what stands behind it is left. -/
theorem read?_text (name : DerivedName) :
    QuerySubject.read? name.text = some (name.subject.intent, name.body) := by
  -- The head starts the name, the digits of the limit are dropped, and the mark is passed.
  have found : name.subject.after? name.text = some name.body := by
    have digits : (name.limit ++ 'B' :: 'y' :: name.body).dropWhile Char.isDigit =
        'B' :: 'y' :: name.body := dropWhile_stop name.digits (by simp)
    simp only [QuerySubject.after?, text, afterStart?_append, Option.bind_eq_bind,
      Option.bind_some]
    cases limited : name.subject.limited with
    | true => rw [if_pos rfl, digits]; rfl
    | false => rw [if_neg (by simp), name.unlimited limited]; rfl
  rw [QuerySubject.read?, QuerySubject.matching_of_after? name.listed found]
  rfl

/-- What stands behind the subject is divided at the order. -/
theorem splitAtText?_body (name : DerivedName) :
    splitAtText? orderBy name.body =
      name.order.map fun order => ((name.predicate.map (·.text)).getD [], order.text) := by
  have behind : BeginsLikeConnector
      ((name.order.map fun order => orderBy ++ order.text).getD []) := by
    cases name.order <;> simp [BeginsLikeConnector, orderBy_eq]
  -- The first words for an order stand where the order does, as nothing before them has those.
  have order : splitAtText? orderBy
      ((name.order.map fun order => orderBy ++ order.text).getD []) =
      name.order.map fun order => ([], order.text) := by
    cases name.order with
    | none => rfl
    | some order =>
      have here := afterStart?_append orderBy order.text
      simp only [Option.map_some, Option.getD_some]
      rw [orderBy_eq, List.cons_append] at here ⊢
      rw [splitAtText?, here]
  have passes : PassesOrder ((name.predicate.map (·.text)).getD [])
      ((name.order.map fun order => orderBy ++ order.text).getD []) := by
    cases name.predicate with
    | none => exact passesOrder_token (by decide) behind
    | some joined => exact joined.passesOrder_text behind
  rw [body, passes, order]
  cases name.order <;> simp

/-- The properties of a name are told apart. -/
theorem splitPredicate_text (name : DerivedName) :
    splitPredicate ((name.predicate.map (·.text)).getD []) = .ok name.tokens := by
  rw [tokens]
  -- Without a predicate the only part is empty, and with one no part is.
  cases name.predicate with
  | none =>
    have nothing : parts [] = [[]] := parts_whole (by simp)
    simp [splitPredicate, nothing]
  | some joined =>
    have kept : joined.tokens.filter (!·.isEmpty) = joined.tokens :=
      List.filter_eq_self.mpr fun token member => by simp [JoinedTokens.ne_nil_of_mem member]
    rw [Option.map_some, Option.getD_some, splitPredicate,
      if_pos (all_iff_isAscii.mpr joined.isAscii_text), joined.parts_text, kept]
    rfl

/--
The name of a derived query is taken apart into what it was put together from.

The intent is that of its subject. The properties are those between the connectors, each without its
longest condition unless it is known as it stands, and behind them the field of the order. No other
subject matches, of this name or of any.
-/
theorem ofMethodName_text (name : DerivedName) (isProperty : String → Bool) :
    (∃ kept, List.Forall₂ (Keeps isProperty) name.tokens kept ∧
      ofMethodName isProperty name.text = .ok (some ⟨name.subject.intent,
        (kept ++ (name.order.map (·.field)).toList).map fun part =>
          String.ofList (decapitalizeChars part)⟩)) ∧
    ∀ method, (QuerySubject.matching method).length ≤ 1 := by
  refine ⟨⟨name.tokens.map (stripCondition isProperty), ?_, ?_⟩, QuerySubject.length_matching⟩
  · exact List.forall₂_map_right_iff.mpr
      (List.forall₂_same.mpr fun token _ => keeps_stripCondition isProperty token)
  · have divided := name.splitPredicate_text
    simp only [ofMethodName, read?_text, splitAtText?_body]
    -- Without an order, all of what follows the subject is properties.
    cases given : name.order with
    | none =>
      have whole : name.body = (name.predicate.map (·.text)).getD [] := by simp [body, given]
      simp [whole, divided]
    | some order => simp [divided, order.orderField_text]

/-- A property in which neither word for a connector stands can be written. -/
def plainToken (text : List Char) (ascii : IsAscii text) (capital : startsCapital text = true)
    (noOrder : ¬ orderBy <:+: text)
    (noConnector : ∀ connector ∈ ["And", "Or"], ∀ c ∈ text, c.isUpper = true →
      ¬ connector.toList ++ [c] <:+: text) : PropertyToken where
  text := text
  ascii := ascii
  capital := capital
  noOrder := noOrder
  noConnector connector listed c isUpper inside :=
    noConnector connector listed c (inside.subset (by simp)) isUpper inside

/-- A name with a limit, a condition, a property that ends like one, and an order. -/
def loggedInName : DerivedName where
  subject := ⟨"findTop", true, .find⟩
  listed := by decide
  limit := ['1', '0']
  digits := by decide
  unlimited := by simp
  predicate := some (.join
    (plainToken "AndroidVersionNotIn".toList (by decide) (by decide) (by decide +kernel)
      (by decide +kernel)) (by decide +kernel) .or
    (.last (plainToken "LoggedIn".toList (by decide) (by decide) (by decide +kernel)
      (by decide +kernel))))
  order := some ⟨"OrderId".toList, by decide, by decide, by decide +kernel, some .descending⟩

/-- The condition and the direction are left out, and the known property stays whole. -/
example :
    loggedInName.text = "findTop10ByAndroidVersionNotInOrLoggedInOrderByOrderIdDesc".toList ∧
      ofMethodName (· == "loggedIn") loggedInName.text =
        .ok (some ⟨.find, ["androidVersion", "loggedIn", "orderId"]⟩) := by
  decide +kernel

end DerivedName

end IndexAudit
