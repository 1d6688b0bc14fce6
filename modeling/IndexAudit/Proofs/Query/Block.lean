import IndexAudit.Proofs.Entity.Block
import IndexAudit.Proofs.Query.Placement

/-!
Blocks in the bodies of entities and repositories are passed over.

A block hides its brackets, literals and declarations from everything around it. What is left of it
are its line breaks, and the directives in its comments, which concern the method behind it.
-/

namespace IndexAudit

/-! Directives. -/

namespace SourcePiece

/-- Whether a piece is part of the code of its line. -/
def isCode : SourcePiece → Bool
  | .code _ => true
  | _ => false

/-- Code is code. -/
@[simp] theorem isCode_code (c : Char) : (SourcePiece.code c).isCode = true :=
  rfl

/-- Whether a piece is part of a comment. -/
def isComment : SourcePiece → Bool
  | .comment _ => true
  | _ => false

/-- Pieces without comments leave line breaks where their code is left out. -/
theorem filter_uncommented {pieces : List SourcePiece}
    (uncommented : ∀ piece ∈ pieces, piece.isComment = false) :
    pieces.filter (!·.isCode) = List.replicate (pieces.count .lineBreak) .lineBreak := by
  induction pieces with
  | nil => rfl
  | cons piece pieces ih =>
    obtain ⟨here, later⟩ := List.forall_mem_cons.mp uncommented
    -- A line break is left out and counted, and a comment there is none.
    cases piece with
    | code c => simpa [isCode] using ih later
    | comment c => cases here
    | lineBreak => simpa [isCode, List.replicate_succ] using ih later

end SourcePiece

namespace Suppression

/-- Directives are told by the comments and the line breaks alone. -/
theorem ofLines_ofPieces (number : Nat) (code comment : List Char) (pieces : List SourcePiece) :
    ofLines (SourceLine.ofPieces number code comment pieces) =
      ofLines (SourceLine.ofPieces number [] comment (pieces.filter (!·.isCode))) := by
  induction pieces generalizing number code comment with
  | nil =>
    -- A line without a comment has no directive, and is left out if it is empty.
    cases comment <;> cases code <;> rfl
  | cons piece pieces ih =>
    cases piece with
    | code c => exact ih number (code ++ [c]) comment
    | comment c => exact ih number code (comment ++ [c])
    | lineBreak =>
      have later := ih (number + 1) [] []
      rw [ofLines, ofLines] at later
      simp only [SourceLine.ofPieces, SourcePiece.isCode, Bool.not_false, List.filter_cons_of_pos,
        ofLines, List.filterMap_cons, later]
      rfl

end Suppression

/-- Content of a block in which there is no comment. -/
def IsUncommented (content : List Char) : Prop :=
  ∀ piece ∈ (SourceState.code.scan ['}'] content).1, piece.isComment = false

instance (content : List Char) : Decidable (IsUncommented content) :=
  inferInstanceAs (Decidable (∀ piece ∈ _, _))

/-- The directives are those around the block if nothing in it is a comment. -/
theorem Suppression.ofLines_block {front content other : List Char}
    (opens : IsCodeBefore '{' front) (inside : IsCodeBefore '}' content)
    (insideToo : IsCodeBefore '}' other) (uncommented : IsUncommented content)
    (uncommentedToo : IsUncommented other) (lines : content.count '\n' = other.count '\n')
    (back : List Char) :
    ofLines (SourceLine.ofText (blockText front content back)) =
      ofLines (SourceLine.ofText (blockText front other back)) := by
  -- A literal that runs over lines counts too, so the breaks are counted on the pieces.
  have breaks {content : List Char} (inside : IsCodeBefore '}' content) :
      (SourceState.code.scan ['}'] content).1.count .lineBreak = content.count '\n' := by
    have whole := (SourcePiece.count_pieces .code (content ++ ['}'])).1
    rw [inside.pieces_eq (.inr rfl)] at whole
    simpa [SourceState.pieces] using whole
  rw [SourceLine.ofText, SourceLine.ofText, blockText, blockText, opens.pieces_eq (.inl rfl),
    opens.pieces_eq (.inl rfl), inside.pieces_eq (.inr rfl), insideToo.pieces_eq (.inr rfl),
    ofLines_ofPieces, ofLines_ofPieces _ _ _ (_ ++ _ :: (_ ++ _ :: _))]
  simp only [List.filter_append, List.filter_cons, SourcePiece.isCode_code, Bool.not_true,
    Bool.false_eq_true, if_false, SourcePiece.filter_uncommented uncommented,
    SourcePiece.filter_uncommented uncommentedToo, breaks inside, breaks insideToo, lines]

/-! Repositories. -/

namespace Repository

/-- Code behind which a curly bracket opens the body of the first class or interface. -/
def OpensBody (heading : List Glyph) : Prop :=
  ∃ found, Declaration.find keywords none heading = some found ∧
    ∀ glyph ∈ found.after, glyph.shown ≠ '{'

/-- The repository whose body begins behind a heading. -/
theorem declaredIn?_opened (mappings : Mappings) {heading : List Glyph} {found : Declaration}
    (isFirst : Declaration.find keywords none heading = some found)
    (header : ∀ glyph ∈ found.after, glyph.shown ≠ '{') (code : List Glyph) :
    declaredIn? mappings (heading ++ Glyph.plain '{' :: code) =
      (entityName? false (Glyph.shownText found.after)).bind fun entity =>
        (mappings.find entity).map fun mapping =>
          ⟨found.name, mapping,
            members (SourceLine.numberAfter (Glyph.text (heading ++ [Glyph.plain '{'])))
              (((Glyph.closeIndex (Glyph.plain '{' :: code)).map fun close =>
                code.take (close - 1)).getD code)⟩ := by
  have behind : Glyph.IsBehind (Glyph.plain '{' :: code) := by
    intro glyph isFirst
    exact .inr (congrArg Glyph.shown (Option.some.inj isFirst).symm)
  have named : ∀ glyph ∈ found.after, (glyph.shown != '{') = true :=
    fun glyph member => by simpa using header glyph member
  have opening : (found.after ++ Glyph.plain '{' :: code).dropWhile (·.shown != '{') =
      Glyph.plain '{' :: code := by
    rw [List.dropWhile_append_of_pos named]
    rfl
  have heads : (found.after ++ Glyph.plain '{' :: code).takeWhile (·.shown != '{') =
      found.after := by
    rw [List.takeWhile_append_of_pos named]
    simp [Glyph.plain, Glyph.shown]
  -- The members are numbered from the line on which the body begins.
  have front : (heading ++ Glyph.plain '{' :: code).take
      ((heading ++ Glyph.plain '{' :: code).length - code.length) =
      heading ++ [Glyph.plain '{'] := by
    have position : (heading ++ Glyph.plain '{' :: code).length - code.length =
        heading.length + 1 := by
      simp only [List.length_append, List.length_cons]
      omega
    rw [position, List.take_length_add_append]
    rfl
  simp only [declaredIn?, Declaration.find_append_some isName_of_mem_keywords behind isFirst,
    opening, heads, Option.bind_eq_bind, Option.bind_some, List.isEmpty_cons, List.drop_succ_cons,
    List.drop_zero, front, Bool.false_eq_true, if_false]
  -- What is left is the same on both sides, whether or not there is an entity.
  cases entityName? false (Glyph.shownText found.after) with
  | none => rfl
  | some entity =>
    simp only [Option.bind_some]
    cases mappings.find entity with
    | none => rfl
    | some mapping => cases Glyph.closeIndex (Glyph.plain '{' :: code) <;> rfl

/-- A repository is the same whatever stands in a block with as many lines. -/
theorem declaredIn?_block (mappings : Mappings) {heading inner content other : List Glyph}
    (opens : OpensBody heading) (top : Segment.IsTopLevel inner)
    (fills : Glyph.FillsBlock content) (fillsToo : Glyph.FillsBlock other)
    (lines : Segment.lineBreaks content = Segment.lineBreaks other) (back : List Glyph) :
    declaredIn? mappings (heading ++ Glyph.plain '{' :: blockCode inner content back) =
      declaredIn? mappings (heading ++ Glyph.plain '{' :: blockCode inner other back) := by
  obtain ⟨found, isFirst, header⟩ := opens
  obtain ⟨stop, body⟩ := top.exists_body back
  -- Cutting the body into members runs past the block, whatever it holds.
  have sameMembers (line : Nat) (behind : List Glyph) :
      members line (blockCode inner content behind) =
        members line (blockCode inner other behind) := by
    obtain ⟨before, next, cut⟩ := top.exists_collect Member.runsOn line
    rw [members, members, cut behind fills, cut behind fillsToo, lines]
  rw [declaredIn?_opened mappings isFirst header, declaredIn?_opened mappings isFirst header,
    body fills, body fillsToo]
  cases stop with
  | none => simp only [Option.map_none, Option.getD_none, sameMembers]
  | some stop => simp only [Option.map_some, Option.getD_some, sameMembers]

end Repository

/-! Both at once. -/

/-- Text that ends in front of a block at the top level of a body with a given kind of heading. -/
def EndsInBody (opensBody : List Glyph → Prop) (front : List Char) : Prop :=
  IsCodeBefore '{' front ∧ ∃ heading inner,
    glyphsBefore '{' front = heading ++ Glyph.plain '{' :: inner ∧ opensBody heading ∧
      Segment.IsTopLevel inner

/-- What searches see of a text with a block in a body, told apart by the bracket of that body. -/
theorem codeGlyphs_inBody {front content : List Char} {heading inner : List Glyph}
    (opens : IsCodeBefore '{' front)
    (split : glyphsBefore '{' front = heading ++ Glyph.plain '{' :: inner)
    (inside : IsCodeBefore '}' content) (back : List Char) :
    codeGlyphs (blockText front content back) = heading ++ Glyph.plain '{' ::
      blockCode inner (glyphsBefore '}' content) (glyphsBehind back) := by
  -- The bracket of the body divides what is in front of the block.
  rw [codeGlyphs_block opens inside, split, blockCode, blockCode, List.append_assoc,
    List.cons_append]

/--
Whatever a block at the top level of a body holds, it bears on nothing around it.

The content of a block leaves no comment, no literal and no bracket open. Any other such content
makes the same mapping of an entity. It makes the same columns of a repository, if it has as many
lines and leaves the directives as they are: those concern the next method wherever they stand.
-/
theorem blockText_exchanged {content other : List Char} (inside : IsBlockContent content)
    (insideToo : IsBlockContent other) (front back : List Char) :
    (EndsInBody Entity.OpensBody front →
      Entity.mappingOfText? (blockText front content back) =
        Entity.mappingOfText? (blockText front other back)) ∧
    (EndsInBody Repository.OpensBody front → content.count '\n' = other.count '\n' →
      IsUncommented content ∧ IsUncommented other ∨
        Suppression.ofLines (SourceLine.ofText (blockText front content back)) =
          Suppression.ofLines (SourceLine.ofText (blockText front other back)) →
      ∀ (file : String) (mappings : Mappings),
        Repository.columns file mappings (blockText front content back) =
          Repository.columns file mappings (blockText front other back)) := by
  constructor
  · rintro ⟨opens, heading, inner, split, opensBody, top⟩
    rw [Entity.mappingOfText?, ← codeGlyphs, Entity.mappingOfText?, ← codeGlyphs,
      codeGlyphs_inBody opens split inside.toIsCodeBefore,
      codeGlyphs_inBody opens split insideToo.toIsCodeBefore]
    exact Entity.mapping?_block opensBody top inside.fills insideToo.fills _
  · rintro ⟨opens, heading, inner, split, opensBody, top⟩ lines silent file mappings
    -- Only these could tell the contents apart, as they are read from comments.
    have directives : Suppression.ofLines (SourceLine.ofText (blockText front content back)) =
        Suppression.ofLines (SourceLine.ofText (blockText front other back)) := by
      rcases silent with ⟨uncommented, uncommentedToo⟩ | same
      · exact Suppression.ofLines_block opens inside.toIsCodeBefore insideToo.toIsCodeBefore
          uncommented uncommentedToo lines back
      · exact same
    -- A member behind the block keeps its line.
    have breaks : Segment.lineBreaks (glyphsBefore '}' content) =
        Segment.lineBreaks (glyphsBefore '}' other) := by
      rw [inside.lineBreaks_glyphsBefore (.inr rfl), lines,
        insideToo.lineBreaks_glyphsBefore (.inr rfl)]
    rw [Repository.columns_eq, Repository.columns_eq, directives, Repository.declared?_eq,
      Repository.declared?_eq, codeGlyphs_inBody opens split inside.toIsCodeBefore,
      codeGlyphs_inBody opens split insideToo.toIsCodeBefore,
      Repository.declaredIn?_block mappings opensBody top inside.fills insideToo.fills breaks]

/-- A text in front of a block in a body, told apart by the bracket of that body. -/
def bodyFront (heading inner : String) : List Char :=
  heading.toList ++ '{' :: inner.toList

/-- The heading of an entity. -/
def accountHeading : String :=
  "@Entity @Table(name = \"accounts\") class Account(val id: Long) "

/-- A field and a function of an entity. -/
def accountInner : String :=
  " @Column(name = \"mail\") val email: String; fun label(): String "

/-- The heading of a repository. -/
def accountsHeading : String :=
  "interface Accounts : Repository<User, Long> "

/-- A block stands at the top level of that repository behind a function. -/
theorem endsInBody_accounts :
    EndsInBody Repository.OpensBody (bodyFront accountsHeading " fun label(): String ") := by
  -- In front of its bracket stands the heading, and behind it a function without a body.
  refine ⟨by decide +kernel, Glyph.ofCode accountsHeading.toList,
    Glyph.ofCode " fun label(): String ".toList, by decide +kernel, ?_, by decide +kernel⟩
  exact ⟨⟨[], "Accounts".toList, " : Repository<User, Long> ".toList.map Glyph.plain⟩,
    by decide +kernel, by decide +kernel⟩

/-- A literal with a bracket, a comment with another one, and a class with a field. -/
def nestedContent : List Char :=
  " val x = \"\x7d\" /* \x7b */; class Y \x7b @Column val z: Int \x7d ".toList

/-- The contents of a block of an entity, and of one of a repository, are exchanged. -/
theorem blockText_exchanged_accounts :
    IsBlockContent nestedContent ∧ IsBlockContent " return email ".toList ∧
      Entity.mappingOfText? (blockText (bodyFront accountHeading accountInner) nestedContent
          "; val size: Int \x7d".toList) =
        some (.ofDeclared "Account" "accounts"
          [("id", "id"), ("email", "mail"), ("size", "size")]) ∧
      IsBlockContent "\nreturn \"\x7b\" \n".toList ∧ IsBlockContent "\n\n".toList ∧
      Repository.columns "Accounts.kt" [Repository.usersMapping]
          (blockText (bodyFront accountsHeading " fun label(): String ")
            "\nreturn \"\x7b\" \n".toList " fun findByEmail(): User \x7d".toList) =
        [⟨"users", "mail", "Accounts.findByEmail", "Accounts.kt", 3, .derived⟩] := by
  have nested : IsBlockContent nestedContent := by decide +kernel
  have plain : IsBlockContent " return email ".toList := by decide +kernel
  have spoken : IsBlockContent "\nreturn \"\x7b\" \n".toList := by decide +kernel
  have empty : IsBlockContent "\n\n".toList := by decide +kernel
  have entity : EndsInBody Entity.OpensBody (bodyFront accountHeading accountInner) := by
    refine ⟨by decide +kernel, Glyph.ofCode accountHeading.toList,
      Glyph.ofCode accountInner.toList, by decide +kernel, ⟨by decide +kernel, ?_⟩,
      by decide +kernel⟩
    exact ⟨⟨"Account".toList, "accounts".toList, "(val id: Long) ".toList.map Glyph.plain⟩,
      by decide +kernel, .stops rfl, by decide +kernel⟩
  -- In the body of an entity, what the block holds declares none of its fields.
  have mapping := (blockText_exchanged nested plain (bodyFront accountHeading accountInner)
    "; val size: Int \x7d".toList).1 entity
  -- In the body of a repository, the contents must hold equally many line breaks.
  have columns := (blockText_exchanged spoken empty
    (bodyFront accountsHeading " fun label(): String ")
    " fun findByEmail(): User \x7d".toList).2 endsInBody_accounts (by decide +kernel)
    (.inl ⟨by decide +kernel, by decide +kernel⟩) "Accounts.kt" [Repository.usersMapping]
  exact ⟨nested, plain, mapping.trans (by decide +kernel), spoken, empty,
    columns.trans (by decide +kernel)⟩

/-- The heading of an entity that leaves its type parameters open. -/
def openHeading : String :=
  "@Entity @Table(name = \"items\") class Item < "

/--
The content of a block bears on what it should not in two cases.

Type parameters that are left open in front of a body go on into its blocks, up to the first closing
angle. A directive in a block concerns the next method, which is outside of that block.
-/
theorem blockText_not_exchanged :
    (∃ heading inner found,
      glyphsBefore '{' (bodyFront openHeading " fun label() ") =
          heading ++ Glyph.plain '{' :: inner ∧
        Glyph.ClosesRound heading ∧ Entity.class? heading = some found ∧
        Entity.bodyIndex? 0 (found.tail ++ [Glyph.plain '{']) = some found.tail.length ∧
        Segment.IsTopLevel inner) ∧
    IsCodeBefore '{' (bodyFront openHeading " fun label() ") ∧
    IsBlockContent "size > (val code: Int)".toList ∧ IsBlockContent [] ∧
    Entity.mappingOfText? (blockText (bodyFront openHeading " fun label() ")
        "size > (val code: Int)".toList " \x7d".toList) =
      some (.ofDeclared "Item" "items" [("code", "code")]) ∧
    Entity.mappingOfText? (blockText (bodyFront openHeading " fun label() ") [] " \x7d".toList) =
      some (.ofDeclared "Item" "items" []) ∧
    EndsInBody Repository.OpensBody (bodyFront accountsHeading " fun label(): String ") ∧
    IsBlockContent "\n// idxlint:ignore\n".toList ∧ IsBlockContent "\n\n".toList ∧
    IsUncommented "\n\n".toList ∧
    Repository.columns "Accounts.kt" [Repository.usersMapping]
        (blockText (bodyFront accountsHeading " fun label(): String ")
          "\n// idxlint:ignore\n".toList " fun findByEmail(): User \x7d".toList) = [] ∧
    Repository.columns "Accounts.kt" [Repository.usersMapping]
        (blockText (bodyFront accountsHeading " fun label(): String ")
          "\n\n".toList " fun findByEmail(): User \x7d".toList) =
      [⟨"users", "mail", "Accounts.findByEmail", "Accounts.kt", 3, .derived⟩] := by
  refine ⟨⟨Glyph.ofCode openHeading.toList, Glyph.ofCode " fun label() ".toList,
      ⟨"Item".toList, "items".toList, " < ".toList.map Glyph.plain⟩, ?_⟩, ?_⟩
  -- An angle that the heading leaves open is closed inside the block, or nowhere.
  · decide +kernel
  · refine ⟨by decide +kernel, by decide +kernel, by decide +kernel, by decide +kernel,
      by decide +kernel, endsInBody_accounts, ?_⟩
    decide +kernel

end IndexAudit
