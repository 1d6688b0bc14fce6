import IndexAudit.Proofs.Query.Suppression
import IndexAudit.Proofs.Text.Blank

/-!
The arguments of a directive, and what they keep out of the result.

Arguments list columns by names in double quotes. Where there is such a name, nothing is suppressed
but what is written among the arguments. Where there is none, whatever else they hold, the list that
is read from them is empty, which is how a directive without arguments suppresses every column.
-/

namespace IndexAudit

namespace Suppression

/-- A column is written somewhere in a text, in some letter case. -/
def OccursIn (column : String) (text : List Char) : Prop :=
  ∃ part, part <:+: text ∧ lower (String.ofList part) = lower column

/-- What stands between quotes is a part of the text. -/
theorem Quotes.isInfix {name text : List Char} (quotes : Quotes name text) : name <:+: text := by
  -- @here|A later name stands in what is behind an earlier pair of quotes.
  induction quotes with
  | @here front behind _ _ => exact ⟨front ++ ['"'], '"' :: behind, by simp⟩
  | @later front other behind _ _ _ ih =>
    exact ih.trans ⟨front ++ '"' :: (other ++ ['"']), [], by simp⟩

/-- A directive has one text between its brackets. -/
theorem HasArguments.unique {after inside other : List Char} (has : HasArguments after inside)
    (hasToo : HasArguments after other) : inside = other :=
  -- Both texts are what is read behind the directive.
  Option.some.inj ((arguments?_eq_some_iff.mpr has).symm.trans (arguments?_eq_some_iff.mpr hasToo))

/-- A comment has one first directive. -/
theorem IsFirst.unique {comment after other : List Char} (isFirst : IsFirst comment after)
    (isFirstToo : IsFirst comment other) : after = other :=
  -- A search finds one directive, so both are what it finds.
  Option.some.inj ((afterDirective?_eq_some_iff.mpr isFirst).symm.trans
    (afterDirective?_eq_some_iff.mpr isFirstToo))

section Arguments

variable {comment after inside : List Char} (isFirst : IsFirst comment after)
  (has : HasArguments after inside)
include isFirst has

/-- Arguments with a name in double quotes suppress only what is written among them. -/
theorem occursIn_of_suppresses (named : ∃ name, Quotes name inside ∧ trim name ≠ [])
    {column : String} (suppresses : Suppresses comment column) : OccursIn column inside := by
  obtain ⟨other, isFirstToo, concerns⟩ := suppresses
  obtain rfl := isFirst.unique isFirstToo
  -- Arguments that hold a name are not nameless, so the column is one that they quote.
  rcases concerns with nameless | ⟨name, ⟨text, hasToo, quotes, -⟩, same⟩
  · obtain ⟨name, quotes, filled⟩ := named
    exact absurd ⟨inside, has, quotes, filled⟩ (nameless name)
  · obtain rfl := has.unique hasToo
    exact ⟨trim name, (trim_isInfix name).trans quotes.isInfix, same⟩

/-- Arguments without a name in double quotes suppress every column. -/
theorem suppresses_of_nameless (nameless : ∀ name, Quotes name inside → trim name = [])
    (column : String) : Suppresses comment column := by
  refine ⟨after, isFirst, .inl ?_⟩
  -- A name in the arguments would have to be empty, and such a one does not count.
  rintro name ⟨other, hasToo, quotes, filled⟩
  obtain rfl := has.unique hasToo
  exact filled (nameless name quotes)

end Arguments

end Suppression

namespace Repository

/--
The columns of a text are those of its members that no comment in front of them suppresses.

A comment suppresses by its first directive. Arguments in which some name stands in double quotes
suppress only columns that are written among them; arguments without one, be they bare words or in
single quotes, suppress every column.
-/
theorem columns_arguments (file : String) (mappings : Mappings) (text : List Char) :
    let lines := SourceLine.ofText text
    let parts := memberParts file mappings (SourceLine.codeText lines)
    columns file mappings text = (behind 0 parts).flatMap (fun part =>
        part.2.columns.filter fun column => ¬ ∃ line ∈ lines,
          part.1 < line.number ∧ line.number ≤ part.2.line ∧
            Suppression.Suppresses line.comment column.column) ∧
      ∀ comment after inside, Suppression.IsFirst comment after →
        Suppression.HasArguments after inside →
        ((∃ name, Suppression.Quotes name inside ∧ trim name ≠ []) →
          ∀ column, Suppression.Suppresses comment column →
            Suppression.OccursIn column inside) ∧
        ((∀ name, Suppression.Quotes name inside → trim name = []) →
          ∀ column, Suppression.Suppresses comment column) :=
  -- What a comment suppresses is told by its first directive, and this by whether it has a name.
  ⟨columns_eq_suppresses file mappings text, fun _ _ _ isFirst has =>
    ⟨fun named _ => Suppression.occursIn_of_suppresses isFirst has named,
      Suppression.suppresses_of_nameless isFirst has⟩⟩

/-- A repository whose directives list a column without quotes: beside one in quotes, and alone. -/
def listedText : List Char :=
  ['\n'].intercalate ([
    "interface Users : Repository<User, Long> \x7b",
    "// idxlint:ignore(\"STATUS\", email)",
    "fun findByStatusAndEmail(): User",
    "// idxlint:ignore(email)",
    "fun findByStatus(): User \x7d"].map String.toList)

/-- The first method keeps what its directive does not list, and the second one loses everything. -/
theorem columns_arguments_users :
    columns "Users.kt" [usersMapping] listedText =
        [⟨"users", "mail", "Users.findByStatusAndEmail", "Users.kt", 3, .derived⟩] ∧
      (∀ column, Suppression.Suppresses "idxlint:ignore(\"STATUS\", email)".toList column →
        Suppression.OccursIn column "\"STATUS\", email".toList) ∧
      ∀ column, Suppression.Suppresses "idxlint:ignore(email)".toList column := by
  obtain ⟨kept, arguments⟩ := columns_arguments "Users.kt" [usersMapping] listedText
  have quoted : ∃ name, Suppression.Quotes name "\"STATUS\", email".toList ∧ trim name ≠ [] :=
    ⟨"STATUS".toList, Suppression.mem_quotedTexts_iff.mp (by decide), by decide⟩
  -- There is no quote in the arguments, so no name in quotes either.
  have unquoted : ∀ name, Suppression.Quotes name "email".toList → trim name = [] := by
    intro name quotes
    have member := Suppression.mem_quotedTexts_iff.mpr quotes
    rw [Suppression.quotedTexts_plain (by decide)] at member
    cases member
  refine ⟨kept.trans (by decide +kernel),
    (arguments _ "(\"STATUS\", email)".toList _ ?_ ?_).1 quoted,
    (arguments _ "(email)".toList _ ?_ ?_).2 unquoted⟩
  · exact Suppression.afterDirective?_eq_some_iff.mp (by decide)
  · exact Suppression.arguments?_eq_some_iff.mp (by decide)
  · exact Suppression.afterDirective?_eq_some_iff.mp (by decide)
  · exact Suppression.arguments?_eq_some_iff.mp (by decide)

end Repository

end IndexAudit
