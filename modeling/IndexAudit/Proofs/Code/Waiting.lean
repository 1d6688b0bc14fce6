import IndexAudit.Proofs.Code.Annotation
import IndexAudit.Proofs.Code.Member

/-!
Annotations wait for the member behind them.

They do so on lines of their own, as pending ones, or in front of the member on its line. In which
of the two ways hangs on where lines end, but what is read does not.
-/

namespace IndexAudit

namespace Segment

/-- The nesting behind an annotation is the one in front of it, and no member ends in it. -/
theorem collect_glyphs {angled : Bool} {note : AnnotationUse} (written : note.IsWritten angled)
    {runsOn : List Char → Bool} {start : Nat} (current rest : List Glyph) :
    collect runsOn start 0 current (note.glyphs ++ rest) =
      collect runsOn start 0 (note.glyphs.reverse ++ current) rest := by
  have apart {c d : Char} (named : AnnotationUse.isNameChar c = true)
      (other : AnnotationUse.isNameChar d = false) : c ≠ d := by
    rintro rfl
    rw [named] at other
    cases other
  have name : Stays 0 (note.name.map Glyph.plain) := by
    refine .inr fun glyph member => ?_
    obtain ⟨c, isChar, rfl⟩ := List.mem_map.mp member
    have named := written.plain c isChar
    exact ⟨apart named (by decide), apart named (by decide), apart named (by decide)⟩
  have flat : Glyph.Balanced angled false (note.name.map Glyph.plain) :=
    (show Glyph.Writes angled false _ _ [] from Glyph.writes_flat note.name fun c member =>
      AnnotationUse.isFlat_of_isNameChar (written.plain c member)).balanced
  have sign : Stays 0 [Glyph.plain '@'] := .inr (by decide)
  rw [AnnotationUse.glyphs, List.cons_append, collect_cons sign, List.append_assoc,
    depthAfter_flat (by decide), collect_balanced flat name]
  cases given : note.args with
  | none => simp
  | some args =>
    -- Inside the arguments no member ends, whatever they hold.
    simp only [List.cons_append, List.append_assoc, List.nil_append]
    rw [collect_round (written.args args given).balanced]
    simp

end Segment

/-- Where a reader stands among the members of a body. -/
structure MemberPlace where
  /-- The line on which the current segment begins. -/
  start : Nat
  /-- The annotations on earlier lines. -/
  pending : List AnnotationUse
  /-- What the current segment holds so far, in reverse order. -/
  current : List Glyph

namespace MemberPlace

/-- Where a reader stands behind a member. -/
def fresh (line : Nat) : MemberPlace := ⟨line, [], []⟩

/-- Where a reader stands behind code that goes to the current segment. -/
def grown (self : MemberPlace) (code : List Glyph) : MemberPlace :=
  { self with current := code.reverse ++ self.current }

/-- Annotations wait on a line, as pending ones or in front of the current member. -/
structure Waits (waiting : List AnnotationUse) (line : Nat) (place : MemberPlace) : Prop where
  own : ∃ own, waiting = place.pending ++ own ∧ AnnotationUse.Leads place.current.reverse own
  line_eq : place.start + Segment.lineBreaks place.current.reverse = line

/-- Nothing waits behind a member. -/
theorem waits_fresh (line : Nat) : Waits [] line (.fresh line) :=
  -- Nothing has been read for the next member, and no annotation waits.
  ⟨⟨[], rfl, AnnotationUse.leads_nil⟩, rfl⟩

/-- The lines of a declaration count from the line on which its annotations wait. -/
theorem Waits.grown_line {waiting : List AnnotationUse} {line : Nat} {place : MemberPlace}
    (waits : Waits waiting line place) (declaration : List Glyph) :
    (place.grown declaration).start +
      Segment.lineBreaks (place.grown declaration).current.reverse =
        line + (Glyph.text declaration).count '\n' := by
  -- The current segment and the declaration have their line breaks one behind the other.
  rw [grown, List.reverse_append, List.reverse_reverse, Segment.lineBreaks_append,
    ← Nat.add_assoc, waits.line_eq]
  rfl

end MemberPlace

/-- A reader of the members of a body for whom annotations wait. -/
structure MemberReader (α : Type) where
  /-- Whether a member that is cut at a line break goes on behind it. -/
  runsOn : List Char → Bool
  /-- The characters that a member which goes on so does not hold. -/
  closing : List Char
  /-- What is read of segments, given the annotations that wait in front of them. -/
  ofSegments : List AnnotationUse → List Segment → α
  visible : ∀ c ∈ closing, isSpacing c = false
  unclosed : ∀ {text}, runsOn text = true → ∀ c ∈ text, c ∉ closing
  /-- Annotations alone wait for what comes behind them. -/
  handsOn : ∀ {pending own code}, AnnotationUse.leading code = (own, []) → ∀ line rest,
    ofSegments pending (⟨code, line, false⟩ :: rest) = ofSegments (pending ++ own) rest

namespace MemberReader

variable {α : Type} (self : MemberReader α)

/-- What is read of the rest of a body. -/
def read (place : MemberPlace) (code : List Glyph) : α :=
  self.ofSegments place.pending (Segment.collect self.runsOn place.start 0 place.current code)

/-- Code that leads from one place to another, while no member is read. -/
def Reaches (place : MemberPlace) (code : List Glyph) (next : MemberPlace) : Prop :=
  ∀ rest, self.read place (code ++ rest) = self.read next rest

/-- Code through which no line break ends a member. -/
def IsOpen (code : List Glyph) : Prop :=
  ∀ glyph ∈ code, glyph.shown ∉ self.closing

variable {self} {place next : MemberPlace} {waiting : List AnnotationUse} {line : Nat}

/-- Code behind other code leads on from where that leads. -/
theorem Reaches.append {first second : List Glyph} {behind : MemberPlace}
    (front : self.Reaches place first next) (back : self.Reaches next second behind) :
    self.Reaches place (first ++ second) behind := fun rest => by
  -- Read with anything behind it, the first part leads to where the second one begins.
  rw [List.append_assoc, front, back]

/-- Code behind other code in the current segment goes to it, too. -/
theorem Reaches.grow {first second : List Glyph}
    (front : self.Reaches place first (place.grown first))
    (back : self.Reaches (place.grown first) second ((place.grown first).grown second)) :
    self.Reaches place (first ++ second) (place.grown (first ++ second)) := by
  -- Going on with the second after the first is going on with both.
  have both := front.append back
  rwa [MemberPlace.grown, MemberPlace.grown, ← List.append_assoc, ← List.reverse_append] at both

/-- Balanced code in which no member ends goes to the current segment. -/
theorem reaches_balanced {angled commas : Bool} {part : List Glyph}
    (balanced : Glyph.Balanced angled commas part) (stays : Segment.Stays 0 part) :
    self.Reaches place part (place.grown part) := fun rest => by
  -- This is what the walk over members does with such code.
  rw [read, Segment.collect_balanced balanced stays]
  rfl

/-- Balanced code in parentheses goes to the current segment, whatever it holds. -/
theorem reaches_round {angled commas : Bool} {inner : List Glyph}
    (balanced : Glyph.Balanced angled commas inner) :
    self.Reaches place (Glyph.plain '(' :: (inner ++ [Glyph.plain ')']))
      (place.grown (Glyph.plain '(' :: (inner ++ [Glyph.plain ')']))) := fun rest => by
  -- Inside the parentheses nothing ends the member, so the walk goes on behind them.
  rw [read, List.cons_append, List.append_assoc, List.singleton_append,
    Segment.collect_round balanced]
  rfl

/-- Flat text in which no member ends goes to the current segment. -/
theorem reaches_flat {text : List Char} (flat : ∀ c ∈ text, Glyph.IsFlat c)
    (within : ∀ c ∈ text, c ≠ ';' ∧ c ≠ '\n') :
    self.Reaches place (text.map Glyph.plain) (place.grown (text.map Glyph.plain)) := by
  -- Flat text is balanced, and none of its characters ends a member.
  have writes : Glyph.Writes false false (text.map Glyph.plain) text [] :=
    Glyph.writes_flat text flat
  refine reaches_balanced writes.balanced (.inr fun glyph member => ?_)
  obtain ⟨c, isChar, rfl⟩ := List.mem_map.mp member
  refine ⟨(within c isChar).1, (within c isChar).2, fun opens => ?_⟩
  have opens : c = '\x7b' := opens
  exact flat c isChar (by simp [opens])

/-- White space goes to the current segment, unless it is a line break that ends that. -/
theorem reaches_spacing {c : Char} (spaced : isSpacing c = true)
    (runs : c = '\n' → self.runsOn (Glyph.shownText place.current.reverse) = true) :
    self.Reaches place [Glyph.plain c] (place.grown [Glyph.plain c]) := fun rest => by
  -- Spacing ends a member only where it is a break that the member does not run on behind.
  have apart : c ≠ ';' ∧ c ≠ '\x7b' := by
    constructor <;> (rintro rfl; exact absurd spaced (by decide))
  have noEnd : ¬ (0 = 0 ∧ ((Glyph.plain c).shown = ';' ∨ (Glyph.plain c).shown = '\n' ∧
      ¬ self.runsOn (Glyph.shownText place.current.reverse) = true)) := fun ⟨_, stops⟩ =>
    stops.elim apart.1 fun ⟨isBreak, ends⟩ => ends (runs isBreak)
  have noBlock : ¬ (0 = 0 ∧ (Glyph.plain c).shown = '\x7b') := fun ⟨_, opens⟩ => apart.2 opens
  have level : Segment.depthAfter 0 (Glyph.plain c).shown = 0 :=
    Segment.depthAfter_flat (Segment.bracketOf_of_isSpacing spaced) 0
  rw [read, List.singleton_append, Segment.collect, if_neg noBlock, if_neg noEnd, level]
  rfl

/-- White space goes to the current segment up to a line break behind which that does not run on. -/
theorem exists_spacing (self : MemberReader α) {own : List AnnotationUse} {c : Char} (spaced : isSpacing c = true)
    (closed : AnnotationUse.leading place.current.reverse = (own, []))
    (goesOn : AnnotationUse.Leads (place.current.reverse ++ [Glyph.plain c]) own)
    (line_eq : place.start + Segment.lineBreaks place.current.reverse = line) :
    ∃ next, MemberPlace.Waits (place.pending ++ own) (line + [c].count '\n') next ∧
      (c = '\n' ∨ self.IsOpen place.current → self.IsOpen next.current) ∧
      self.Reaches place [Glyph.plain c] next := by
  by_cases ends : c = '\n' ∧ ¬ self.runsOn (Glyph.shownText place.current.reverse) = true
  case pos =>
    obtain ⟨rfl, ends⟩ := ends
    refine ⟨⟨line + 1, place.pending ++ own, []⟩, ⟨⟨[], by simp, AnnotationUse.leads_nil⟩, rfl⟩,
      fun _ => by simp [IsOpen], fun rest => ?_⟩
    -- What is cut off holds nothing but the annotations.
    rw [read, List.singleton_append, Segment.collect_stop (.inr ⟨rfl, ends⟩), line_eq]
    exact self.handsOn closed _ _
  case neg =>
    have runs : c = '\n' → self.runsOn (Glyph.shownText place.current.reverse) = true :=
      fun isBreak => not_not.mp fun stops => ends ⟨isBreak, stops⟩
    refine ⟨place.grown [Glyph.plain c], ⟨⟨own, rfl, by simpa [MemberPlace.grown] using goesOn⟩, ?_⟩,
      fun isOpen => ?_, reaches_spacing spaced runs⟩
    · simp only [MemberPlace.grown, List.reverse_append, List.reverse_reverse]
      rw [Segment.lineBreaks_append, ← Nat.add_assoc, line_eq]
      rfl
    · have before : self.IsOpen place.current := isOpen.elim (fun isBreak glyph member =>
        self.unclosed (runs isBreak) glyph.shown
          (List.mem_map.mpr ⟨glyph, List.mem_reverse.mpr member, rfl⟩)) id
      refine List.forall_mem_cons.mpr ⟨fun listed => ?_, before⟩
      rw [self.visible c listed] at spaced
      cases spaced

end MemberReader

namespace MemberPlace

section Waiting

variable {α : Type} (reader : MemberReader α) {place : MemberPlace}
  {waiting : List AnnotationUse} {line : Nat}

/-- Annotations go on waiting in white space. -/
theorem Waits.gap {gap : List Char} (spaced : ∀ c ∈ gap, isSpacing c = true)
    (waits : Waits waiting line place) :
    ∃ next, Waits waiting (line + gap.count '\n') next ∧
      ('\n' ∈ gap ∨ reader.IsOpen place.current → reader.IsOpen next.current) ∧
      reader.Reaches place (gap.map Glyph.plain) next := by
  induction gap generalizing place line with
  | nil => exact ⟨place, waits, fun isOpen => isOpen.resolve_left (by simp), fun _ => rfl⟩
  | cons c gap ih =>
    obtain ⟨here, later⟩ := List.forall_mem_cons.mp spaced
    obtain ⟨⟨own, rfl, leads⟩, line_eq⟩ := waits
    have single : AnnotationUse.Leads [Glyph.plain c] [] :=
      AnnotationUse.leads_spacing (by simpa [Glyph.plain, Glyph.shown] using here)
    obtain ⟨first, waits, opens, step⟩ := reader.exists_spacing here leads.alone
      (by simpa using leads.append single) line_eq
    obtain ⟨next, waits, opensMore, steps⟩ := ih later waits
    -- A line break in the gap leaves the place open, here or further on.
    refine ⟨next, ?_, fun isOpen => opensMore ?_, step.append steps⟩
    · rwa [Nat.add_assoc, ← List.count_append] at waits
    · rcases isOpen with isBreak | before
      · exact (List.mem_cons.mp isBreak).symm.imp_right fun first => opens (.inl first.symm)
      · exact .inr (opens (.inr before))

/-- An annotation waits behind those that do. -/
theorem Waits.note {angled : Bool} {note : AnnotationUse} (written : note.IsWritten angled)
    {gap : List Char} (filled : gap ≠ []) (spaced : ∀ c ∈ gap, isSpacing c = true)
    (waits : Waits waiting line place) :
    ∃ next, Waits (waiting ++ [note.short]) (line + (note.render ++ gap).count '\n') next ∧
      ('\n' ∈ gap → reader.IsOpen next.current) ∧
      reader.Reaches place (note.glyphs ++ gap.map Glyph.plain) next := by
  obtain ⟨⟨own, rfl, leads⟩, line_eq⟩ := waits
  obtain ⟨c, gap, rfl⟩ := List.exists_cons_of_ne_nil filled
  obtain ⟨first, later⟩ := List.forall_mem_cons.mp spaced
  let noted : MemberPlace := place.grown note.glyphs
  have step : reader.Reaches place note.glyphs noted := fun rest => by
    rw [MemberReader.read, Segment.collect_glyphs written]
    rfl
  -- The annotation is read whether the segment ends behind it or goes on.
  have closed : AnnotationUse.leading noted.current.reverse = (own ++ [note.short], []) := by
    have read := leads.reads note.glyphs (by simpa using AnnotationUse.begins_glyphs note [])
    rw [AnnotationUse.leading_single written] at read
    simpa [noted, grown] using read
  have more := leads.append (AnnotationUse.leads_glyphs written
    (show isSpacing (Glyph.plain c).shown = true from first))
  have breaks : Segment.lineBreaks note.glyphs = note.render.count '\n' := by
    rw [Segment.lineBreaks, (AnnotationUse.writes_render written []).spelled.text_eq]
  have line_eq : noted.start + Segment.lineBreaks noted.current.reverse =
      line + note.render.count '\n' := by
    simp only [noted, grown, List.reverse_append, List.reverse_reverse]
    rw [Segment.lineBreaks_append, ← Nat.add_assoc, line_eq, breaks]
  obtain ⟨behind, waits, opens, spacing⟩ := reader.exists_spacing first closed
    (by simpa [noted, grown] using more) line_eq
  obtain ⟨next, waits, opensMore, steps⟩ := waits.gap reader later
  refine ⟨next, ?_, fun isBreak => opensMore ?_, step.append (spacing.append steps)⟩
  · have count : line + (note.render ++ c :: gap).count '\n' =
        line + note.render.count '\n' + [c].count '\n' + gap.count '\n' := by
      rw [List.count_append, ← List.singleton_append, List.count_append]
      omega
    rw [count, List.append_assoc]
    exact waits
  · exact (List.mem_cons.mp isBreak).symm.imp_right fun isFirst => opens (.inl isFirst.symm)

/--
Annotations wait one behind the other.

Behind a line break nothing is left in front of the current member that keeps it from running on.
-/
theorem Waits.notes {angled : Bool} {notes : List (AnnotationUse × List Char)}
    (fine : ∀ note ∈ notes, note.1.IsWritten angled ∧ note.2 ≠ [] ∧
      ∀ c ∈ note.2, isSpacing c = true)
    (waits : Waits waiting line place) :
    ∃ next, Waits (waiting ++ notes.map (·.1.short))
        (line + (notes.flatMap fun note => note.1.render ++ note.2).count '\n') next ∧
      ((notes = [] → reader.IsOpen place.current) → (∀ note ∈ notes.getLast?, '\n' ∈ note.2) →
        reader.IsOpen next.current) ∧
      reader.Reaches place (notes.flatMap fun note => note.1.glyphs ++ note.2.map Glyph.plain) next := by
  -- Each annotation may end a segment, so what waits where is general.
  induction notes generalizing waiting line place with
  | nil => exact ⟨place, by simpa using waits, fun isOpen _ => isOpen rfl, fun _ => rfl⟩
  | cons note notes ih =>
    obtain ⟨⟨written, filled, spaced⟩, later⟩ := List.forall_mem_cons.mp fine
    obtain ⟨first, waits, opens, step⟩ := waits.note reader written filled spaced
    obtain ⟨next, waits, opensMore, steps⟩ := ih later waits
    refine ⟨next, ?_, fun _ last => opensMore (fun none => opens (last note ?_)) fun other isLast =>
      last other ?_, step.append steps⟩
    · rw [List.append_assoc, Nat.add_assoc, ← List.count_append] at waits
      exact waits
    · simp [none]
    · have filled : notes ≠ [] := by
        rintro rfl
        cases isLast
      rwa [List.getLast?_cons_of_ne_nil filled]

end Waiting

end MemberPlace

end IndexAudit
