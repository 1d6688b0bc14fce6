import IndexAudit.Proofs.Entity.Field
import IndexAudit.Proofs.Query.MethodHead

/-!
Every declared member of a repository is read once, with its own annotations.

Members are methods and properties. A method has annotations in front of it or on lines above, and
a type that may stand on a line of its own, and ends at a line break, a semicolon or a block.
-/

namespace IndexAudit

namespace Member

open MemberPlace (Waits waits_fresh)
open MemberReader (reaches_balanced reaches_flat reaches_round reaches_spacing)

/-! How members are declared. -/

/-- What ends a member. -/
inductive MemberEnding where
  | lineBreak
  | semicolon
  /-- A block in curly brackets. -/
  | block (inner : List Char)
deriving Repr, DecidableEq

/-- A method as it is declared, without annotations and modifiers. -/
structure DeclaredMethod where
  /-- What stands in front of its name: `fun`, or the type that it returns. -/
  lead : List Char
  /-- The white space in front of its name. -/
  gap : List Char
  name : List Char
  params : List Char
  /-- What stands behind its parameters on their last line, such as its type. -/
  tail : List Char
  ending : MemberEnding
deriving Repr, DecidableEq

/-- A property on one line as it is declared, without annotations and modifiers. -/
structure DeclaredProperty where
  keyword : String
  /-- Its name, its type behind a colon, and what else stands on its line. -/
  typed : List Char
deriving Repr, DecidableEq

/-- What is declared as a member. -/
inductive DeclaredForm where
  | method (method : DeclaredMethod)
  | property (property : DeclaredProperty)
deriving Repr, DecidableEq

/-- A member as it is declared. -/
structure DeclaredMember where
  /-- Its annotations, with the white space behind each of them. -/
  notes : List (AnnotationUse × List Char)
  modifiers : List String
  form : DeclaredForm
  /-- The white space behind it. -/
  behind : List Char
deriving Repr, DecidableEq

namespace MemberEnding

/-- The end of a member as it is written. -/
def text : MemberEnding → List Char
  | .lineBreak => ['\n']
  | .semicolon => [';']
  | .block inner => '\x7b' :: (inner ++ ['\x7d'])

/-- The end of a member as it is written, as code. -/
def glyphs : MemberEnding → List Glyph
  | .lineBreak => [Glyph.plain '\n']
  | .semicolon => [Glyph.plain ';']
  | .block inner => Glyph.plain '\x7b' :: (Glyph.ofCode inner ++ [Glyph.plain '\x7d'])

/-- Brackets match in a block. -/
def IsFine : MemberEnding → Prop
  | .lineBreak => True
  | .semicolon => True
  | .block inner => Glyph.IsCode false true inner

end MemberEnding

namespace DeclaredMethod

/-- The parameters and what stands behind them. -/
def arguments (self : DeclaredMethod) : List Char :=
  '(' :: (self.params ++ ')' :: self.tail)

/-- The declaration as it is written. -/
def text (self : DeclaredMethod) : List Char :=
  self.lead ++ (self.gap ++ (self.name ++ self.arguments))

/-- The declaration as it is written, as code. -/
def glyphs (self : DeclaredMethod) : List Glyph :=
  Glyph.ofCode self.lead ++ (self.gap.map Glyph.plain ++ (self.name.map Glyph.plain ++
    ((Glyph.plain '(' :: (Glyph.ofCode self.params ++ [Glyph.plain ')'])) ++
      Glyph.ofCode self.tail)))

/--
A method that is known by its name.

Its name is no modifier, and what stands in front of it begins no declaration of another kind.
-/
structure IsFine (method : DeclaredMethod) : Prop where
  lead : IsLead method.lead
  gap : Entity.IsGap method.gap
  named : IsName method.name
  free : String.ofList method.name ∉ "fun" :: modifiers
  declares : ∀ word ∈ ((words (Entity.seen method.lead) ++ [method.name]).dropWhile fun word =>
    modifiers.contains (String.ofList word)).head?, String.ofList word ∉ nonMethodWords
  params : Glyph.IsCode false true method.params
  tail : IsInline method.tail
  ending : method.ending.IsFine

end DeclaredMethod

namespace DeclaredProperty

/-- The declaration as it is written. -/
def text (self : DeclaredProperty) : List Char :=
  self.keyword.toList ++ (' ' :: self.typed)

/-- The declaration as it is written, as code. -/
def glyphs (self : DeclaredProperty) : List Glyph :=
  self.keyword.toList.map Glyph.plain ++ (Glyph.plain ' ' :: Glyph.ofCode self.typed)

/-- A property whose type stands on its line. -/
structure IsFine (property : DeclaredProperty) : Prop where
  keyword : property.keyword ∈ ["val", "var"]
  typed : IsInline property.typed
  colon : ':' ∈ Entity.seen property.typed

end DeclaredProperty

namespace DeclaredForm

/-- The declaration as it is written. -/
def text : DeclaredForm → List Char
  | .method declared => declared.text
  | .property declared => declared.text

/-- The declaration as it is written, as code. -/
def glyphs : DeclaredForm → List Glyph
  | .method declared => declared.glyphs
  | .property declared => declared.glyphs

/-- What ends the declaration. -/
def ending : DeclaredForm → MemberEnding
  | .method declared => declared.ending
  | .property _ => .lineBreak

/-- A declaration of either kind that is known as one. -/
def IsFine : DeclaredForm → Prop
  | .method declared => declared.IsFine
  | .property declared => declared.IsFine

end DeclaredForm

namespace DeclaredMember

/-- The annotations as they are written. -/
def notesText (self : DeclaredMember) : List Char :=
  self.notes.flatMap fun note => note.1.render ++ note.2

/-- The annotations as they are written, as code. -/
def notesGlyphs (self : DeclaredMember) : List Glyph :=
  self.notes.flatMap fun note => note.1.glyphs ++ note.2.map Glyph.plain

/-- The declaration with its modifiers as it is written, as code. -/
def declaration (self : DeclaredMember) : List Glyph :=
  (modifierText self.modifiers).map Glyph.plain ++ self.form.glyphs

/-- The member as it is written up to where it ends. -/
def openText (self : DeclaredMember) : List Char :=
  self.notesText ++ (modifierText self.modifiers ++ self.form.text)

/-- The member as it is written up to where it ends, as code. -/
def openGlyphs (self : DeclaredMember) : List Glyph :=
  self.notesGlyphs ++ self.declaration

/-- The member as it is written. -/
def text (self : DeclaredMember) : List Char :=
  self.openText ++ (self.form.ending.text ++ self.behind)

/-- The member as it is written, as code. -/
def glyphs (self : DeclaredMember) : List Glyph :=
  self.openGlyphs ++ (self.form.ending.glyphs ++ self.behind.map Glyph.plain)

/-- A member with annotations and modifiers that may be written. -/
structure IsFine (member : DeclaredMember) : Prop where
  notes : ∀ note ∈ member.notes, note.1.IsWritten false ∧ Entity.IsGap note.2
  modifiers : ∀ modifier ∈ member.modifiers, modifier ∈ Member.modifiers
  form : member.form.IsFine
  /-- What stands above the name runs on to it. -/
  above : ∀ method, member.form = .method method → '\n' ∈ method.gap →
    (∀ note ∈ member.notes.getLast?, '\n' ∈ note.2) ∧ (member.modifiers = [] →
      ∀ word ∈ (words (Entity.seen method.lead)).head?, String.ofList word ∉ closedWords)
  behind : IsSpace member.behind

/-- The member that is read on a line: methods have names and annotations, properties have none. -/
def member (self : DeclaredMember) (line : Nat) : Member :=
  match self.form with
  | .method method =>
    ⟨some method.name,
      line + (self.notesText ++
        (modifierText self.modifiers ++ (method.lead ++ method.gap))).count '\n',
      self.notes.map (·.1.short)⟩
  | .property _ => ⟨none, line + self.notesText.count '\n', []⟩

/-- The members that are read from a line on. -/
def members : Nat → List DeclaredMember → List Member
  | _, [] => []
  | line, first :: rest => first.member line :: members (line + first.text.count '\n') rest

end DeclaredMember

/-! What a declaration is written as. -/

/-- The end of a member is code in which brackets match. -/
theorem MemberEnding.IsFine.writes {ending : MemberEnding} (fine : ending.IsFine)
    (rest : List Char) : Glyph.Writes false true ending.glyphs ending.text rest := by
  -- Each way to end a member is a character by itself or a block.
  cases ending with
  | lineBreak => exact (Glyph.writes_flat ['\n'] (by decide)).withCommas
  | semicolon => exact (Glyph.writes_flat [';'] (by decide)).withCommas
  | block inner => exact Glyph.writes_group (by decide) fine

/-- The end of a member joins nothing in front of it to a comment or a string. -/
theorem MemberEnding.apart (ending : MemberEnding) (rest : List Char) :
    ∀ c ∈ (ending.text ++ rest).head?, c ≠ '"' ∧ c ≠ '/' ∧ c ≠ '*' := by
  cases ending <;> simp [text]

section Method

variable {method : DeclaredMethod}

/-- The declaration of a method is code in which brackets match. -/
theorem DeclaredMethod.IsFine.writes (fine : method.IsFine) {rest : List Char}
    (apart : ∀ c ∈ rest.head?, c ≠ '"' ∧ c ≠ '/' ∧ c ≠ '*') :
    Glyph.Writes false true method.glyphs method.text rest := by
  have params : Glyph.Writes false true
      ((Glyph.plain '(' :: (Glyph.ofCode method.params ++ [Glyph.plain ')'])) ++
        Glyph.ofCode method.tail) method.arguments rest := by
    have shape : method.arguments = '(' :: (method.params ++ [')']) ++ method.tail := by
      simp [DeclaredMethod.arguments]
    rw [shape]
    exact (Glyph.writes_group (by decide) fine.params).append (fine.tail.toWrites.before apart)
  have name : Glyph.Writes false true (method.name.map Glyph.plain) method.name
      (method.arguments ++ rest) :=
    (Glyph.writes_flat _ (Entity.flat_of_isName fine.named)).withCommas
  have gap {behind : List Char} :
      Glyph.Writes false true (method.gap.map Glyph.plain) method.gap behind :=
    (Glyph.writes_flat _ fine.gap.flat).withCommas
  refine (fine.lead.toWrites.before fun c first => ?_).append (gap.append (name.append params))
  -- White space follows the type, so that no comment and no literal begins across the two.
  obtain ⟨d, more, given⟩ := List.exists_cons_of_ne_nil fine.gap.filled
  obtain rfl : d = c := by simpa [given] using first
  have flat := fine.gap.flat d (by simp [given])
  have noStar : d ≠ '*' := by
    rintro rfl
    exact absurd (fine.gap.spaced '*' (by simp [given])).1 (by decide)
  simp_all [Glyph.IsFlat]

end Method

section Property

variable {property : DeclaredProperty}

/-- The keyword of a property is a name, and begins no method. -/
theorem isName_keyword (fine : property.IsFine) : IsName property.keyword.toList ∧
    property.keyword ∉ modifiers ∧ property.keyword ∈ nonMethodWords := by
  -- There are two such keywords, and both are looked at.
  have each : ∀ keyword ∈ ["val", "var"], (keyword.toList.head?.any isNameStart = true ∧
      ∀ c ∈ keyword.toList, isWordChar c = true) ∧ keyword ∉ modifiers ∧
        keyword ∈ nonMethodWords := by decide
  obtain ⟨⟨starts, parts⟩, other⟩ := each property.keyword fine.keyword
  exact ⟨⟨starts, parts⟩, other⟩

/-- The declaration of a property is code in which brackets match. -/
theorem DeclaredProperty.IsFine.writes (fine : property.IsFine) {rest : List Char}
    (apart : ∀ c ∈ rest.head?, c ≠ '"' ∧ c ≠ '/' ∧ c ≠ '*') :
    Glyph.Writes false true property.glyphs property.text rest := by
  -- The declaration is its keyword, a space, and the code of its type.
  have keyword {behind : List Char} : Glyph.Writes false true
      (property.keyword.toList.map Glyph.plain) property.keyword.toList behind :=
    (Glyph.writes_flat _ (Entity.flat_of_isName (isName_keyword fine).1)).withCommas
  have space {behind : List Char} : Glyph.Writes false true [Glyph.plain ' '] [' '] behind :=
    (Glyph.writes_flat [' '] (by decide)).withCommas
  exact keyword.append (space.append (fine.typed.toWrites.before apart))

end Property

namespace DeclaredMember

variable {self : DeclaredMember}

/-- The annotations are code in which brackets match. -/
theorem IsFine.writes_notes (fine : self.IsFine) (rest : List Char) :
    Glyph.Writes false true self.notesGlyphs self.notesText rest := by
  -- Each annotation is written with the gap behind it, which holds no bracket.
  refine Glyph.writes_flatMap (fun note member rest => ?_) rest
  obtain ⟨written, isGap⟩ := fine.notes note member
  exact ((AnnotationUse.writes_render written _).append
    (Glyph.writes_flat _ isGap.flat)).withCommas

/-- The modifiers are code in which brackets match. -/
theorem IsFine.flat_modifiers (fine : self.IsFine) :
    ∀ c ∈ modifierText self.modifiers, Glyph.IsFlat c := by
  intro c member
  -- A modifier is a name with a space behind it.
  obtain ⟨modifier, chosen, inModifier⟩ := List.mem_flatMap.mp member
  rcases List.mem_append.mp inModifier with inWord | isSpace
  · exact Entity.flat_of_isName (isName_of_mem_modifiers (fine.modifiers modifier chosen)) c inWord
  · rw [List.mem_singleton.mp isSpace]
    decide

/-- The declaration is code in which brackets match. -/
theorem IsFine.writes_form (fine : self.IsFine) {rest : List Char}
    (apart : ∀ c ∈ rest.head?, c ≠ '"' ∧ c ≠ '/' ∧ c ≠ '*') :
    Glyph.Writes false true self.form.glyphs self.form.text rest := by
  have form := fine.form
  -- Methods and properties have their own conditions.
  cases given : self.form with
  | method method =>
    rw [given] at form
    exact DeclaredMethod.IsFine.writes form apart
  | property property =>
    rw [given] at form
    exact DeclaredProperty.IsFine.writes form apart

/-- What ends the declaration can be written. -/
theorem IsFine.ending (fine : self.IsFine) : self.form.ending.IsFine := by
  have form := fine.form
  -- A property ends in a line break, for which nothing is asked.
  cases given : self.form with
  | method method =>
    rw [given] at form
    exact DeclaredMethod.IsFine.ending form
  | property property => trivial

/-- The declaration with its modifiers is code in which brackets match. -/
theorem IsFine.writes_declaration (fine : self.IsFine) {rest : List Char}
    (apart : ∀ c ∈ rest.head?, c ≠ '"' ∧ c ≠ '/' ∧ c ≠ '*') :
    Glyph.Writes false true self.declaration (modifierText self.modifiers ++ self.form.text) rest :=
  -- The modifiers are flat, and the form is written behind them.
  (Glyph.writes_flat _ fine.flat_modifiers).withCommas.append (fine.writes_form apart)

/-- A member up to where it ends is code in which brackets match. -/
theorem IsFine.writes_open (fine : self.IsFine) {rest : List Char}
    (apart : ∀ c ∈ rest.head?, c ≠ '"' ∧ c ≠ '/' ∧ c ≠ '*') :
    Glyph.Writes false true self.openGlyphs self.openText rest :=
  -- The annotations are written in front of the declaration.
  (fine.writes_notes _).append (fine.writes_declaration apart)

/-- A member is code in which brackets match. -/
theorem IsFine.writes (fine : self.IsFine) (rest : List Char) :
    Glyph.Writes false true self.glyphs self.text rest := by
  -- A member is its open part, its ending, and white space behind both.
  have behind : Glyph.Writes false true (self.behind.map Glyph.plain) self.behind rest :=
    (Glyph.writes_flat _ fine.behind.isFlat).withCommas
  refine (fine.writes_open ?_).append ((fine.ending.writes _).append behind)
  rw [List.append_assoc]
  exact MemberEnding.apart _ _

end DeclaredMember

/-! How a declaration begins, and that it is cut nowhere. -/

section Method

variable {method : DeclaredMethod} {chosen : List String}

/-- What a search sees of a method. -/
theorem DeclaredMethod.shown_glyphs (self : DeclaredMethod) :
    Glyph.shownText self.glyphs = Entity.seen self.lead ++ (self.gap ++ (self.name ++
      '(' :: (Entity.seen self.params ++ ')' :: Entity.seen self.tail))) := by
  simp [DeclaredMethod.glyphs, Glyph.shown_plain, Entity.seen]

/-- The words in front of the name of a method are its modifiers and those of its lead. -/
theorem DeclaredMethod.IsFine.words_front (fine : method.IsFine)
    (listed : ∀ modifier ∈ chosen, modifier ∈ modifiers) :
    words (modifierText chosen ++ (Entity.seen method.lead ++ method.gap)) =
      chosen.map String.toList ++ words (Entity.seen method.lead) := by
  -- The gap is white space and the lead begins and ends apart from it, so the words divide there.
  have white : ∀ c ∈ method.gap, isBlank c = true := fun c member =>
    Entity.isBlank_of_isSpacing (fine.gap.spaced c member).1
  rw [words_modifiers listed, words_append, words_blank white, List.append_nil]
  · intro c last d first
    rw [white d (List.mem_of_mem_head? first), fine.lead.ends c last]
    decide
  · intro c first
    rw [List.head?_append_of_ne_nil _ fine.lead.filled] at first
    exact (fine.lead.starts c first).1

/-- A method is known by its name. -/
theorem DeclaredMethod.IsFine.methodName?_eq (fine : method.IsFine)
    (listed : ∀ modifier ∈ chosen, modifier ∈ modifiers) :
    methodName? (modifierText chosen ++ Glyph.shownText method.glyphs) =
      some (modifierText chosen ++ (Entity.seen method.lead ++ method.gap), method.name) := by
  have shape : modifierText chosen ++ Glyph.shownText method.glyphs =
      (modifierText chosen ++ (Entity.seen method.lead ++ method.gap)) ++ (method.name ++
        '(' :: (Entity.seen method.params ++ ')' :: Entity.seen method.tail)) := by
    simp [method.shown_glyphs]
  have white : ∀ c ∈ method.gap, isSpacing c = true := fun c member =>
    (fine.gap.spaced c member).1
  rw [shape]
  -- The bracket of the parameters is the first one, since neither modifiers nor the type have any.
  refine Member.methodName?_eq fine.named fine.free ?apart ?visible ?spaced ?declares _
  case apart =>
    intro c member
    simp only [List.mem_append] at member
    rcases member with inModifier | inLead | inGap
    · have apart := apart_of_isWordChar (mem_modifierText listed inModifier)
      simp only [closingChars, List.mem_cons, not_or] at apart
      exact ⟨apart.2.1, apart.2.2.2.1⟩
    · exact ⟨(fine.lead.flat c inLead).1, (fine.lead.flat c inLead).2.2⟩
    · constructor <;> (rintro rfl; exact absurd (white _ inGap) (by decide))
  case visible =>
    obtain ⟨c, more, seen⟩ := List.exists_cons_of_ne_nil fine.lead.filled
    have visible := (fine.lead.starts c (by simp [seen])).1
    simp [seen, visible]
  case spaced =>
    rw [← List.append_assoc, List.getLast?_append_of_ne_nil _ fine.gap.filled]
    exact fun c last => Entity.isBlank_of_isSpacing (white c (List.mem_of_mem_getLast? last))
  case declares =>
    rw [fine.words_front listed, List.append_assoc,
      List.dropWhile_append_of_pos (contains_modifiers listed)]
    exact fine.declares

/-- A method is cut nowhere, even if its type stands on a line of its own. -/
theorem DeclaredMethod.IsFine.reaches (fine : method.IsFine) {place : MemberPlace}
    (runs : '\n' ∈ method.gap → runsOn (Glyph.shownText place.current.reverse ++
      Entity.seen method.lead) = true) :
    reader.Reaches place method.glyphs (place.grown method.glyphs) := by
  have name : ∀ c ∈ method.name, c ≠ ';' ∧ c ≠ '\n' := fun c member =>
    noEnd_of_isWordChar (.inl (fine.named.parts c member))
  have lead : reader.Reaches place (Glyph.ofCode method.lead) (place.grown (Glyph.ofCode method.lead)) :=
    reaches_balanced fine.lead.balanced fine.lead.toIsInline.stays
  -- A line break is found only between type and name; all else is flat or in brackets.
  refine lead.grow ((reaches_gap (fun c member => (fine.gap.spaced c member).1)
    fun isBreak => ?_).grow ((reaches_flat (Entity.flat_of_isName fine.named) name).grow
      ((reaches_round fine.params.balanced).grow
        (reaches_balanced fine.tail.balanced fine.tail.stays))))
  have code : Glyph.shownText (place.grown (Glyph.ofCode method.lead)).current.reverse =
      Glyph.shownText place.current.reverse ++ Entity.seen method.lead := by
    simp [MemberPlace.grown, Entity.seen]
  rw [code]
  exact runs isBreak

/-- What stands on the line above the name of a method runs on to it. -/
theorem DeclaredMethod.IsFine.runsOn_eq (fine : method.IsFine)
    (listed : ∀ modifier ∈ chosen, modifier ∈ modifiers) {waiting : List AnnotationUse}
    {line : Nat} {place : MemberPlace} (waits : Waits waiting line place) (isOpen : reader.IsOpen place.current)
    (above : chosen = [] →
      ∀ word ∈ (words (Entity.seen method.lead)).head?, String.ofList word ∉ closedWords) :
    runsOn (Glyph.shownText place.current.reverse ++
      (modifierText chosen ++ Entity.seen method.lead)) = true := by
  refine runsOn_waits waits isOpen ?inside ?starts (by simp [fine.lead.filled]) ?ends ?first
  case inside =>
    intro c member
    rcases List.mem_append.mp member with inModifier | inLead
    · have apart := apart_of_isWordChar (mem_modifierText listed inModifier)
      exact fun closes => apart (List.mem_cons_of_mem _ closes)
    · have noEnd := (fine.lead.whole c inLead).1
      have flat := fine.lead.flat c inLead
      simp [closingChars, noEnd, flat]
  case starts =>
    have begins := beginsMember_modifiers listed (fine.lead.begins [])
    rw [List.append_nil] at begins
    intro c first
    simp only [BeginsMember, Option.mem_def.mp first, Option.any_some, Bool.and_eq_true,
      Bool.not_eq_true'] at begins
    exact begins.1.1
  case ends =>
    rw [List.getLast?_append_of_ne_nil _ fine.lead.filled]
    exact fine.lead.ends
  -- The first word is a modifier if there is one, and none of those ends a member.
  case first =>
    rw [words_modifiers listed fun c first => (fine.lead.starts c first).1]
    cases chosen with
    | nil => exact above rfl
    | cons modifier chosen =>
      intro word isFirst
      obtain rfl : modifier.toList = word := by simpa using isFirst
      have each : ∀ modifier ∈ modifiers, modifier ∉ closedWords := by decide
      simpa using each modifier (listed modifier (by simp))

end Method

section Property

variable {property : DeclaredProperty}

/-- What a search sees of a property. -/
theorem DeclaredProperty.shown_glyphs (self : DeclaredProperty) :
    Glyph.shownText self.glyphs = self.keyword.toList ++ (' ' :: Entity.seen self.typed) := by
  simp [DeclaredProperty.glyphs, Glyph.shown_plain, Entity.seen]

/-- A property is cut nowhere. -/
theorem DeclaredProperty.IsFine.reaches (fine : property.IsFine) {place : MemberPlace} :
    reader.Reaches place property.glyphs (place.grown property.glyphs) := by
  -- Neither a keyword nor a space ends a member, and the type is balanced and stays in it.
  have named := (isName_keyword fine).1
  have keyword : ∀ c ∈ property.keyword.toList, c ≠ ';' ∧ c ≠ '\n' := fun c member =>
    noEnd_of_isWordChar (.inl (named.parts c member))
  have space (here : MemberPlace) : reader.Reaches here [Glyph.plain ' '] (here.grown [Glyph.plain ' ']) :=
    reaches_spacing (by decide) (by simp)
  exact (reaches_flat (Entity.flat_of_isName named) keyword).grow
    ((space _).grow (reaches_balanced fine.typed.balanced fine.typed.stays))

end Property

section Ending

variable {declaration : List Glyph} {ending : MemberEnding} {place : MemberPlace}
  {waiting : List AnnotationUse} {line : Nat}

/-- A member is read where it ends, in whichever way that is. -/
theorem read_ending (waits : Waits waiting line place)
    (begins : BeginsMember (Glyph.shownText declaration))
    (reaches : reader.Reaches place declaration (place.grown declaration)) {c : Char}
    (closes : c ∈ Glyph.shownText declaration) (listed : c ∈ closingChars)
    (fine : ending.IsFine) (rest : List Glyph) :
    reader.read place (declaration ++ (ending.glyphs ++ rest)) =
      ofDeclaration waiting line (Glyph.shownText declaration) ::
        reader.read (.fresh (line + (Glyph.text declaration ++ ending.text).count '\n'))
          rest := by
  -- A closing character is in the declaration, so that it does not run on behind a line break.
  have ends : runsOn (Glyph.shownText (place.grown declaration).current.reverse) = false := by
    refine runsOn_eq_false ?_ listed
    simp only [MemberPlace.grown, List.reverse_append, List.reverse_reverse, Glyph.shownText,
      List.map_append]
    exact List.mem_append_right _ closes
  cases ending with
  | lineBreak => exact read_stop waits begins reaches (.inr ⟨rfl, ends⟩) rest
  | semicolon => exact read_stop waits begins reaches (.inl rfl) rest
  | block inner =>
    have isCode : Glyph.IsCode false true inner := fine
    -- Braces are on no line of their own, so the block has the line breaks of what is in it.
    have count : (Glyph.text declaration ++ MemberEnding.text (.block inner)).count '\n' =
        (Glyph.text declaration ++ Glyph.text (Glyph.ofCode inner)).count '\n' := by
      rw [isCode.spelled.text_eq]
      simp [MemberEnding.text]
    have read := read_block waits begins reaches isCode.balanced rest
    rw [← count] at read
    simpa [MemberEnding.glyphs] using read

end Ending

/-! Members are read one behind the other. -/

namespace DeclaredMember

variable {self : DeclaredMember} {place : MemberPlace} {waiting : List AnnotationUse} {line : Nat}

/-- What a search sees of a declaration. -/
theorem shown_declaration (self : DeclaredMember) : Glyph.shownText self.declaration =
    modifierText self.modifiers ++ Glyph.shownText self.form.glyphs := by
  simp [declaration]

/-- A declaration begins as a member. -/
theorem IsFine.begins (fine : self.IsFine) : BeginsMember (Glyph.shownText self.declaration) := by
  have form := fine.form
  rw [self.shown_declaration]
  refine beginsMember_modifiers fine.modifiers ?_
  -- Behind the modifiers comes the lead of a method or the keyword of a property.
  cases given : self.form with
  | method method =>
    rw [given] at form
    rw [DeclaredForm.glyphs, method.shown_glyphs]
    exact IsLead.begins (DeclaredMethod.IsFine.lead form) _
  | property property =>
    rw [given] at form
    rw [DeclaredForm.glyphs, property.shown_glyphs]
    exact beginsMember_name (isName_keyword form).1 _

/-- A declaration holds a character behind which a line break ends it. -/
theorem IsFine.closes (fine : self.IsFine) :
    ∃ c ∈ closingChars, c ∈ Glyph.shownText self.declaration := by
  have form := fine.form
  rw [self.shown_declaration]
  -- A method has brackets around its parameters, and a property a colon in front of its type.
  cases given : self.form with
  | method method =>
    refine ⟨'(', by decide, List.mem_append_right _ ?_⟩
    rw [DeclaredForm.glyphs, method.shown_glyphs]
    simp
  | property property =>
    rw [given] at form
    refine ⟨':', by decide, List.mem_append_right _ ?_⟩
    rw [DeclaredForm.glyphs, property.shown_glyphs]
    simp [DeclaredProperty.IsFine.colon form]

/-- A declaration is cut nowhere. -/
theorem IsFine.reaches (fine : self.IsFine) (waits : Waits waiting line place)
    (isOpen : (∀ note ∈ self.notes.getLast?, '\n' ∈ note.2) → reader.IsOpen place.current) :
    reader.Reaches place self.declaration (place.grown self.declaration) := by
  have form := fine.form
  refine (reaches_flat fine.flat_modifiers fun c member =>
    noEnd_of_isWordChar (mem_modifierText fine.modifiers member)).grow ?_
  have code : Glyph.shownText
      (place.grown ((modifierText self.modifiers).map Glyph.plain)).current.reverse =
        Glyph.shownText place.current.reverse ++ modifierText self.modifiers := by
    simp [MemberPlace.grown]
  -- Only a method can have a line break inside, and that is where the annotations end a line.
  cases given : self.form with
  | method method =>
    rw [given] at form
    refine DeclaredMethod.IsFine.reaches form fun isBreak => ?_
    obtain ⟨last, above⟩ := fine.above method given isBreak
    rw [code, List.append_assoc]
    exact DeclaredMethod.IsFine.runsOn_eq form fine.modifiers waits (isOpen last) above
  | property property =>
    rw [given] at form
    exact DeclaredProperty.IsFine.reaches form

/-- A declaration is read as its member is. -/
theorem IsFine.ofDeclaration_eq (fine : self.IsFine) (line : Nat) :
    ofDeclaration (self.notes.map (·.1.short)) (line + self.notesText.count '\n')
      (Glyph.shownText self.declaration) = self.member line := by
  have form := fine.form
  have begins := fine.begins
  cases given : self.form with
  | method method =>
    rw [given] at form
    have isInline := (DeclaredMethod.IsFine.lead form).toIsInline
    -- The type is on one line, so the name is as many lines below as there are behind the type.
    have seen : (Entity.seen method.lead).count '\n' = method.lead.count '\n' := by
      rw [List.count_eq_zero.mpr isInline.notMem_seen, List.count_eq_zero.mpr isInline.inLine]
    rw [ofDeclaration, self.shown_declaration, given, DeclaredForm.glyphs,
      DeclaredMethod.IsFine.methodName?_eq form fine.modifiers]
    simp [member, given, seen, Nat.add_assoc]
  | property property =>
    rw [given] at form
    -- The keyword of a property is what would have to name a method.
    have noMethod : methodName? (Glyph.shownText self.declaration) = none := by
      obtain ⟨named, noModifier, other⟩ := isName_keyword form
      rw [self.shown_declaration, given, DeclaredForm.glyphs, property.shown_glyphs]
      exact methodName?_otherWord named (by simpa using noModifier) (by simpa using other)
        fine.modifiers _
    have blank : (Glyph.shownText self.declaration).takeWhile isBlank = [] := by
      cases shown : Glyph.shownText self.declaration with
      | nil => rfl
      | cons c more =>
        simp only [BeginsMember, shown, List.head?_cons, Option.any_some, Bool.and_eq_true,
          Bool.not_eq_true'] at begins
        simp [begins.1.1]
    simp [ofDeclaration, noMethod, blank, member, given]

/-- The annotations of a member wait for its declaration, and that is cut nowhere. -/
theorem IsFine.exists_noted (fine : self.IsFine) (waits : Waits [] line place)
    (isOpen : reader.IsOpen place.current) :
    ∃ noted, Waits (self.notes.map (·.1.short)) (line + self.notesText.count '\n') noted ∧
      reader.Reaches place self.notesGlyphs noted ∧
      reader.Reaches noted self.declaration (noted.grown self.declaration) := by
  -- Each annotation waits behind the earlier ones, and the gap behind it is white space.
  have written : ∀ note ∈ self.notes, note.1.IsWritten false ∧ note.2 ≠ [] ∧
      ∀ c ∈ note.2, isSpacing c = true := fun note member =>
    have ⟨written, isGap⟩ := fine.notes note member
    ⟨written, isGap.filled, fun c isChar => (isGap.spaced c isChar).1⟩
  obtain ⟨noted, waiting, opens, notes⟩ := waits.notes reader written
  exact ⟨noted, waiting, notes, fine.reaches waiting fun last => opens (fun _ => isOpen) last⟩

/--
A member is read once, from what waits of its annotations.

Behind it nothing waits, and nothing keeps the current member from running on.
-/
theorem IsFine.read_eq (fine : self.IsFine) (waits : Waits [] line place)
    (isOpen : reader.IsOpen place.current) :
    ∃ next, Waits [] (line + self.text.count '\n') next ∧ reader.IsOpen next.current ∧
      ∀ rest, reader.read place (self.glyphs ++ rest) = self.member line :: reader.read next rest := by
  obtain ⟨noted, waiting, notes, reaches⟩ := fine.exists_noted waits isOpen
  obtain ⟨c, listed, closes⟩ := fine.closes
  have read := read_ending waiting fine.begins reaches closes listed fine.ending
  obtain ⟨next, waits, stays, behind⟩ := (waits_fresh (line + self.notesText.count '\n' +
    (Glyph.text self.declaration ++ self.form.ending.text).count '\n')).gap reader fun c member =>
      (fine.behind c member).1
  refine ⟨next, ?lineBreaks, stays (.inr (by simp [MemberReader.IsOpen, MemberPlace.fresh])), fun rest => ?reads⟩
  -- Annotations, declaration and the space behind it have the line breaks of the member.
  case lineBreaks =>
    have writes : Glyph.Writes false true self.declaration _ [] := fine.writes_declaration (by simp)
    have count : line + self.text.count '\n' = line + self.notesText.count '\n' +
        (Glyph.text self.declaration ++ self.form.ending.text).count '\n' +
          self.behind.count '\n' := by
      rw [writes.spelled.text_eq, text, openText]
      simp only [List.count_append]
      omega
    rwa [count]
  case reads =>
    have front : self.glyphs ++ rest = self.notesGlyphs ++ (self.declaration ++
        (self.form.ending.glyphs ++ (self.behind.map Glyph.plain ++ rest))) := by
      simp [glyphs, openGlyphs]
    rw [front, ← behind rest, ← fine.ofDeclaration_eq line]
    exact (notes _).trans (read _)

/-- The last member of a body is read where that ends. -/
theorem IsFine.read_last (fine : self.IsFine) (waits : Waits [] line place)
    (isOpen : reader.IsOpen place.current) : reader.read place self.openGlyphs = [self.member line] := by
  -- Having passed annotations and declaration, the reader stands at the end with one member left.
  obtain ⟨noted, waiting, notes, reaches⟩ := fine.exists_noted waits isOpen
  have last := ofSegments_declaration waiting fine.begins false []
  have whole := reaches []
  rw [List.append_nil, read_reader, read_reader, Segment.collect] at whole
  rw [openGlyphs, ← fine.ofDeclaration_eq line]
  exact (notes _).trans (whole.trans last)

/-- The members of a body are read one behind the other. -/
theorem read_members {declared : List DeclaredMember} {last : Option DeclaredMember}
    (fine : ∀ member ∈ declared ++ last.toList, member.IsFine) (waits : Waits [] line place)
    (isOpen : reader.IsOpen place.current) :
    reader.read place (declared.flatMap (·.glyphs) ++ last.toList.flatMap (·.openGlyphs)) =
      members line (declared ++ last.toList) := by
  -- Behind each member nothing waits and the place is open, which is all the next one asks for.
  induction declared generalizing line place with
  | nil =>
    cases last with
    | none =>
      obtain ⟨⟨own, alone, leads⟩, -⟩ := waits
      obtain ⟨nothing, rfl⟩ := List.append_eq_nil_iff.mp alone.symm
      have blank : Segment.isBlankCode [] = true := rfl
      simp only [List.flatMap_nil, Option.toList_none, List.append_nil, read_reader, nothing]
      rw [Segment.collect]
      simp only [ofSegments, leads.alone, blank, if_true]
      rfl
    | some last => simpa [members] using (fine last (by simp)).read_last waits isOpen
  | cons first rest ih =>
    obtain ⟨here, later⟩ := List.forall_mem_cons.mp fine
    obtain ⟨next, waits, isOpen, read⟩ := here.read_eq waits isOpen
    rw [List.flatMap_cons, List.append_assoc, read, ih later waits isOpen, List.cons_append, members]

/--
Every declared member of a repository is read once, with its own annotations.

Methods are read with their names, their annotations and the lines of their names, properties
without any of these. Nothing is read of what stands in parameters or blocks. The last member may
end where the body does.
-/
theorem members_declared (line : Nat) {space : List Char} (spaced : IsSpace space)
    {declared : List DeclaredMember} {last : Option DeclaredMember}
    (fine : ∀ member ∈ declared ++ last.toList, member.IsFine) :
    Repository.members line (Glyph.ofCode (space ++
      (declared.flatMap (·.text) ++ last.toList.flatMap (·.openText)))) =
        members (line + space.count '\n') (declared ++ last.toList) := by
  -- Only the last member may be left open, since nothing that it could swallow follows it.
  have final : Glyph.Writes false true (last.toList.flatMap (·.openGlyphs))
      (last.toList.flatMap (·.openText)) [] := by
    cases last with
    | none => exact ⟨.done, .nil⟩
    | some last =>
      have writes : Glyph.Writes false true last.openGlyphs last.openText [] :=
        (fine last (by simp)).writes_open (by simp)
      simpa using writes
  have writes := Glyph.writes_flatMap (fun member listed rest =>
    (fine member (List.mem_append_left _ listed)).writes rest) (last.toList.flatMap (·.openText) ++ [])
  have whole := (Glyph.writes_flat space spaced.isFlat).withCommas.append (writes.append final)
  obtain ⟨next, waits, isOpen, steps⟩ := (waits_fresh line).gap reader fun c member => (spaced c member).1
  have start : reader.IsOpen next.current := isOpen (.inr (by simp [MemberReader.IsOpen, MemberPlace.fresh]))
  rw [whole.spelled.ofCode_eq, ← read_members fine waits start]
  exact steps _

/-- Members with annotations, types and modifiers on lines of their own and on those of names. -/
def layouts : List DeclaredMember :=
  [⟨[(⟨"Lock".toList, none⟩, "\n  ".toList), (⟨"Query".toList, some "a".toList⟩, "\n  ".toList)],
      ["public"], .method ⟨"User".toList, "\n  ".toList, "find".toList, "String a".toList, [],
        .semicolon⟩, "\n  ".toList⟩,
    ⟨[], [], .property ⟨"val", "limit: Int".toList⟩, "  ".toList⟩,
    ⟨[(⟨"Lock".toList, none⟩, " ".toList)], ["override"], .method ⟨"fun".toList, " ".toList,
      "count".toList, [], ": Int ".toList, .block "\n  fun a: Int\n  ".toList⟩, "\n  ".toList⟩]

/-- A method at the end of a body. -/
def lastLayout : DeclaredMember :=
  ⟨[], [], .method ⟨"fun".toList, " ".toList, "last".toList, [], " ".toList, .lineBreak⟩, []⟩

/-- Annotations stay with their methods, and nothing of the block is read. -/
theorem members_declared_layouts :
    IsSpace "\n  ".toList ∧ (∀ member ∈ layouts ++ (some lastLayout).toList, member.IsFine) ∧
      Repository.members 1 (Glyph.ofCode (String.toList
        ("\n  @Lock\n  @Query(a)\n  public User\n  find(String a);\n  val limit: Int\n  " ++
          "@Lock override fun count(): Int \x7b\n  fun a: Int\n  \x7d\n  fun last() "))) =
        [⟨some "find".toList, 5, [⟨"Lock".toList, none⟩, ⟨"Query".toList, some "a".toList⟩]⟩,
          ⟨none, 6, []⟩, ⟨some "count".toList, 7, [⟨"Lock".toList, none⟩]⟩,
          ⟨some "last".toList, 10, []⟩] := by
  have flat {text : List Char} (flat : ∀ c ∈ text, Glyph.IsFlat c) : Glyph.IsCode false true text :=
    (Glyph.isCode_flat flat).withCommas
  have inline {text : List Char} (flat : ∀ c ∈ text, Glyph.IsFlat c)
      (within : ∀ c ∈ text, c ≠ ';' ∧ c ≠ '\n') : IsInline text := isInline_flat flat within
  have gap (text : List Char) (listed : text ∈ ["\n  ".toList, " ".toList]) :
      Entity.IsGap text := by
    have each : ∀ text ∈ ["\n  ".toList, " ".toList], text ≠ [] ∧ IsSpace text := by decide
    exact ⟨(each text listed).1, (each text listed).2⟩
  have kotlin : IsLead "fun".toList :=
    ⟨inline (by decide) (by decide), by decide, by decide, by decide, by decide⟩
  have java : IsLead "User".toList :=
    ⟨inline (by decide) (by decide), by decide, by decide, by decide, by decide⟩
  have marked : (⟨"Lock".toList, none⟩ : AnnotationUse).IsWritten false :=
    ⟨by decide, by decide, by simp⟩
  have queried : (⟨"Query".toList, some "a".toList⟩ : AnnotationUse).IsWritten false :=
    ⟨by decide, by decide, fun args given => by
      obtain rfl : "a".toList = args := by simpa using given
      exact flat (by decide)⟩
  have fine : ∀ member ∈ layouts ++ (some lastLayout).toList, member.IsFine := by
    intro member listed
    simp only [layouts, Option.toList_some, List.cons_append, List.nil_append, List.mem_cons,
      List.not_mem_nil, or_false] at listed
    rcases listed with rfl | rfl | rfl | rfl
    -- The first one has its name on a line of its own, below annotations on lines of theirs.
    case inl =>
      refine ⟨?_, by decide, ⟨java, gap _ (by decide), ⟨by decide, by decide⟩, by decide,
        by decide, flat (by decide), inline (by decide) (by decide), trivial⟩, ?_, by decide⟩
      · simp only [List.mem_cons, List.not_mem_nil, or_false, forall_eq_or_imp, forall_eq]
        exact ⟨⟨marked, gap _ (by decide)⟩, queried, gap _ (by decide)⟩
      · rintro _ ⟨rfl⟩ -
        decide
    case inr.inl =>
      refine ⟨by simp, by simp, ⟨by decide, inline (by decide) (by decide), by decide⟩, ?_,
        by decide⟩
      rintro _ ⟨⟩
    case inr.inr.inl =>
      refine ⟨?_, by decide, ⟨kotlin, gap _ (by decide), ⟨by decide, by decide⟩, by decide,
        by decide, flat (by decide), inline (by decide) (by decide), flat (by decide)⟩, ?_,
        by decide⟩
      · simpa using ⟨marked, gap _ (by decide)⟩
      · rintro _ ⟨rfl⟩ lineBreak
        exact absurd lineBreak (by decide)
    case inr.inr.inr =>
      refine ⟨by simp [lastLayout], by simp [lastLayout], ⟨kotlin, gap _ (by decide),
        ⟨by decide, by decide⟩, by decide, by decide, flat (by decide),
        inline (by decide) (by decide), trivial⟩, ?_, by decide⟩
      rintro _ ⟨rfl⟩ lineBreak
      exact absurd lineBreak (by decide)
  have written : String.toList
      ("\n  @Lock\n  @Query(a)\n  public User\n  find(String a);\n  val limit: Int\n  " ++
        "@Lock override fun count(): Int \x7b\n  fun a: Int\n  \x7d\n  fun last() ") =
      "\n  ".toList ++ (layouts.flatMap (·.text) ++
        (some lastLayout).toList.flatMap (·.openText)) := by decide +kernel
  have spaced : IsSpace "\n  ".toList := by decide
  refine ⟨spaced, fine, ?_⟩
  rw [written, members_declared 1 spaced fine]
  decide +kernel

/-- A method whose name is no ASCII word. -/
def sizeMethod : DeclaredMember :=
  ⟨[], [], .method ⟨"fun".toList, [' '], "größe".toList, [], [], .lineBreak⟩, []⟩

/-- A method with an annotation whose name is no ASCII word. -/
def sizeNoted : DeclaredMember :=
  ⟨[(⟨"Größe".toList, none⟩, [' '])], [],
    .method ⟨"fun".toList, [' '], "a".toList, [], [], .lineBreak⟩, []⟩

/-- A method whose name begins other methods. -/
def wordNamed : DeclaredMember :=
  ⟨[], [], .method ⟨"User".toList, [' '], "fun".toList, [], [], .semicolon⟩, []⟩

/-- A method whose type begins other declarations. -/
def wordTyped : DeclaredMember :=
  ⟨[], [], .method ⟨"object".toList, [' '], "a".toList, [], [], .semicolon⟩, []⟩

/-- A method behind a line that does not run on. -/
def cutOff : DeclaredMember :=
  ⟨[], [], .method ⟨"fun".toList, ['\n'], "a".toList, [], [], .semicolon⟩, []⟩

/-- Such names are cut, such methods are nameless, and such lines are members of their own. -/
theorem members_ne_members :
    Repository.members 1 (Glyph.ofCode sizeMethod.text) = [⟨some "e".toList, 1, []⟩] ∧
    sizeMethod.member 1 = ⟨some "größe".toList, 1, []⟩ ∧
    Repository.members 1 (Glyph.ofCode sizeNoted.text) =
      [⟨some "a".toList, 1, [⟨"Gr".toList, none⟩]⟩] ∧
    sizeNoted.member 1 = ⟨some "a".toList, 1, [⟨"Größe".toList, none⟩]⟩ ∧
    Repository.members 1 (Glyph.ofCode wordNamed.text) = [⟨none, 1, []⟩] ∧
    wordNamed.member 1 = ⟨some "fun".toList, 1, []⟩ ∧
    Repository.members 1 (Glyph.ofCode wordTyped.text) = [⟨none, 1, []⟩] ∧
    wordTyped.member 1 = ⟨some "a".toList, 1, []⟩ ∧
    Repository.members 1 (Glyph.ofCode cutOff.text) = [⟨none, 1, []⟩, ⟨none, 2, []⟩] ∧
    cutOff.member 1 = ⟨some "a".toList, 2, []⟩ := by
  -- All five texts and their members are closed, so both sides are computed.
  decide +kernel

end DeclaredMember

end Member

end IndexAudit
