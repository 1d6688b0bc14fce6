import IndexAudit.Proofs.Code.Annotation
import IndexAudit.Query.Repository

/-!
The members of a body come in the order of their lines.

Each segment of a body begins no earlier than the one in front of it ends, and the line of a member
is one of those of its segment.
-/

namespace IndexAudit

namespace Segment

/-- Segments come one behind the other, the first of them no earlier than at a line. -/
def Follow (start : Nat) : List Segment → Prop
  | [] => True
  | first :: rest => start ≤ first.line ∧ Follow (first.line + lineBreaks first.code) rest

/-- Segments that begin later come behind an earlier line too. -/
theorem Follow.mono {start earlier : Nat} {segments : List Segment}
    (follow : Follow start segments) (before : earlier ≤ start) : Follow earlier segments := by
  -- Only the first segment is compared with the start.
  cases segments with
  | nil => trivial
  | cons first rest => exact ⟨Nat.le_trans before follow.1, follow.2⟩

/-- The segments of a body come one behind the other. -/
theorem collect_follow (runsOn : List Char → Bool) (start depth : Nat) (current code : List Glyph) :
    Follow start (collect runsOn start depth current code) := by
  match code with
  | [] => simp [collect, Follow]
  | glyph :: rest =>
    -- The next segment begins behind the line breaks of what the current one holds.
    rw [collect]
    split
    · have shorter : (afterBlock (glyph :: rest)).length < rest.length + 1 :=
        afterBlock_length (List.cons_ne_nil glyph rest)
      exact ⟨Nat.le_refl start, (collect_follow runsOn _ 0 [] _).mono (Nat.le_add_right _ _)⟩
    split
    · exact ⟨Nat.le_refl start, (collect_follow runsOn _ 0 [] rest).mono (Nat.le_add_right _ _)⟩
    · exact collect_follow runsOn start _ _ rest
termination_by code.length

/-- A search sees no more line breaks than the code has. -/
theorem count_shownText_le (code : List Glyph) :
    (Glyph.shownText code).count '\n' ≤ lineBreaks code := by
  simp only [Glyph.shownText, lineBreaks, Glyph.text, List.count_eq_countP, List.countP_map]
  refine List.countP_mono_left fun glyph _ seen => ?_
  -- A hidden character is seen as a space.
  simp only [Function.comp_apply, Glyph.shown, beq_iff_eq] at seen ⊢
  split at seen
  · cases seen
  · exact seen

/-- The end of code has no more line breaks than the code. -/
theorem lineBreaks_isSuffix {declaration code : List Glyph} (ends : declaration <:+ code) :
    lineBreaks declaration ≤ lineBreaks code :=
  -- The end is a part of the code, and so are its line breaks.
  (ends.sublist.map _).count_le _

end Segment

namespace Member

/-- A text begins with the name at its end and what comes before, and may go on with white space. -/
theorem trailingName?_append_isPrefix {text before name : List Char}
    (found : trailingName? text = some (before, name)) : before ++ name <+: text := by
  have kept : dropEndWhile isAsciiBlank text <+: text :=
    List.reverse_suffix.mp (by simpa [dropEndWhile] using List.dropWhile_suffix _)
  simp only [trailingName?] at found
  split at found
  · cases found
  · cases found
    -- The name is the end of what is left without white space.
    have word : ((dropEndWhile isAsciiBlank text).reverse.takeWhile isWordChar).reverse <:+
        dropEndWhile isAsciiBlank text :=
      List.reverse_prefix.mp (by simpa using List.takeWhile_prefix _)
    rw [List.suffix_iff_eq_append.mp ((List.dropWhile_suffix Char.isDigit).trans word)]
    exact kept

/-- What comes before the name at the end of a text is the start of the text. -/
theorem trailingName?_isPrefix {text before name : List Char}
    (found : trailingName? text = some (before, name)) : before <+: text :=
  -- With the name behind it, it is still the start.
  (List.prefix_append before name).trans (trailingName?_append_isPrefix found)

/-- A name at the end of a text has a character. -/
theorem ne_nil_of_trailingName? {text before name : List Char}
    (found : trailingName? text = some (before, name)) : name ≠ [] := by
  -- An empty name is refused.
  simp only [trailingName?] at found
  split at found
  · cases found
  · rename_i filled
    cases found
    simpa using filled

/-- The name of a method is the one in front of its parameters. -/
theorem trailingName?_of_methodName? {text before name : List Char}
    (found : methodName? text = some (before, name)) :
    trailingName? (text.takeWhile (· != '(')) = some (before, name) := by
  -- Of the checks on the way, the name in front of the bracket alone gives the result.
  simp only [methodName?, Option.bind_eq_bind] at found
  split at found
  · cases found
  · obtain ⟨first, -, found⟩ := Option.bind_eq_some_iff.mp found
    split at found
    · cases found
    · obtain ⟨⟨front, last⟩, trailing, found⟩ := Option.bind_eq_some_iff.mp found
      split at found
      · cases found
      · cases found
        exact trailing

/-- A declaration begins with the name of the method and what comes before. -/
theorem methodName?_append_isPrefix {text before name : List Char}
    (found : methodName? text = some (before, name)) : before ++ name <+: text :=
  -- The name ends where the parameters begin.
  (trailingName?_append_isPrefix (trailingName?_of_methodName? found)).trans
    (List.takeWhile_prefix _)

/-- The name of a method stands behind a part of the declaration. -/
theorem methodName?_isPrefix {text before name : List Char}
    (found : methodName? text = some (before, name)) : before <+: text :=
  -- With the name behind it, it is still the start.
  (List.prefix_append before name).trans (methodName?_append_isPrefix found)

/-- The members of segments stand on the lines of these, in order. -/
theorem ofSegments_sorted {segments : List Segment} {start : Nat}
    (follow : Segment.Follow start segments) (pending : List AnnotationUse) :
    (∀ member ∈ ofSegments pending segments, start ≤ member.line) ∧
      (ofSegments pending segments).Pairwise (·.line ≤ ·.line) := by
  induction segments generalizing start pending with
  | nil => simp [ofSegments]
  | cons segment rest ih =>
    obtain ⟨begins, follow⟩ := follow
    rw [ofSegments]
    have ends := AnnotationUse.leading_isSuffix segment.code
    generalize AnnotationUse.leading segment.code = parts at ends ⊢
    obtain ⟨own, declaration⟩ := parts
    dsimp only at ends ⊢
    split
    · exact ih (follow.mono (Nat.le_trans begins (Nat.le_add_right _ _))) _
    · obtain ⟨later, sorted⟩ := ih follow []
      have breaks := Segment.lineBreaks_isSuffix ends
      -- The member begins within the segment, and those behind it do not.
      have within {front : List Char} (isPrefix : front <+: Glyph.shownText declaration)
          (name : Option (List Char)) (notes : List AnnotationUse) :
          let member : Member := ⟨name, segment.line + Segment.lineBreaks segment.code -
            Segment.lineBreaks declaration + front.count '\n', notes⟩
          (∀ other ∈ member :: ofSegments [] rest, start ≤ other.line) ∧
            (member :: ofSegments [] rest).Pairwise (·.line ≤ ·.line) := by
        have count := Nat.le_trans (isPrefix.sublist.count_le '\n')
          (Segment.count_shownText_le declaration)
        intro member
        have first : start ≤ member.line := by
          simp only [member]
          omega
        have behind : ∀ other ∈ ofSegments [] rest, member.line ≤ other.line := by
          intro other isLater
          have := later other isLater
          simp only [member]
          omega
        refine ⟨fun other isMember => ?_, List.pairwise_cons.mpr ⟨behind, sorted⟩⟩
        rcases List.mem_cons.mp isMember with rfl | isLater
        · exact first
        · exact Nat.le_trans first (behind other isLater)
      split
      · rename_i before name found
        exact within (methodName?_isPrefix found) _ _
      · exact within (List.takeWhile_prefix _) _ _

/-- The members of a body come in the order of their lines. -/
theorem members_sorted (line : Nat) (body : List Glyph) :
    (Repository.members line body).Pairwise (·.line ≤ ·.line) :=
  -- Segments come line by line, and members are made up of them in turn.
  (ofSegments_sorted (Segment.collect_follow runsOn line 0 [] body) []).2

end Member

end IndexAudit
