import IndexAudit.Proofs.Query.Erasure
import IndexAudit.Proofs.Query.MemberLine
import Mathlib.Data.List.TakeWhile

/-!
A directive keeps columns of the first member behind it out of the result, and nothing else.

Directives and members know of each other by their lines only. Members come in the order of their
lines, so what a member takes are the directives between the one in front of it and itself.
-/

namespace IndexAudit

namespace Suppression

/-- Several suppressions of one method cover what any of them covers. -/
theorem combine_covers (line : Nat) (list : List Suppression) (column : String) :
    (combine line list).any (·.covers column) = list.any (·.covers column) := by
  unfold combine
  split
  · rename_i empty
    simp [List.isEmpty_iff.mp empty]
  split
  · -- One without columns covers everything.
    rename_i bare
    obtain ⟨first, member, all⟩ := List.any_eq_true.mp bare
    have covered : list.any (·.covers column) = true :=
      List.any_eq_true.mpr ⟨first, member, by simp [covers, all]⟩
    rw [covered]
    rfl
  · rename_i filled named
    -- Each of them names columns, and so do they all together.
    have named : ∀ suppression ∈ list, suppression.columns ≠ [] := by simpa using named
    have some_named : list.flatMap (·.columns) ≠ [] := by
      cases list with
      | nil => exact absurd rfl filled
      | cons first rest => simp [named first (by simp)]
    rw [Bool.eq_iff_iff]
    simp only [Option.any_some, covers, List.isEmpty_eq_false_iff.mpr some_named, Bool.false_or,
      List.contains_eq_mem, decide_eq_true_eq, List.mem_flatMap, List.any_eq_true]
    refine exists_congr fun suppression => and_congr_right fun member => ?_
    simp [named suppression member]

/-- Columns that differ in letter case only are covered alike. -/
theorem covers_congr {suppression : Suppression} {column other : String}
    (same : lower column = lower other) : suppression.covers column = suppression.covers other := by
  simp [covers, same]

/-- Suppressions in the order of their lines are taken up to a line. -/
theorem takeWhile_eq_filter {pending : List Suppression}
    (sorted : pending.Pairwise (·.line ≤ ·.line)) (line : Nat) :
    pending.takeWhile (·.line ≤ line) = pending.filter (·.line ≤ line) ∧
      pending.dropWhile (·.line ≤ line) = pending.filter (line < ·.line) := by
  induction pending with
  | nil => exact ⟨rfl, rfl⟩
  | cons first rest ih =>
    obtain ⟨below, sorted⟩ := List.pairwise_cons.mp sorted
    obtain ⟨taken, left⟩ := ih sorted
    by_cases within : first.line ≤ line
    · simp [within, taken, left]
    · -- All that follow the first one beyond the line are beyond it too.
      have beyond : ∀ later ∈ rest, line < later.line := fun later member =>
        Nat.lt_of_lt_of_le (Nat.lt_of_not_le within) (below later member)
      have none_within : rest.filter (·.line ≤ line) = [] := by simpa using beyond
      have all_beyond : rest.filter (line < ·.line) = rest := by simpa using beyond
      simp [within, none_within, all_beyond, Nat.lt_of_not_le within]

end Suppression

namespace SourceLine

/-- The lines of a text come in the order of their numbers. -/
theorem ofPieces_sorted (number : Nat) (code comment : List Char) (pieces : List SourcePiece) :
    (∀ line ∈ ofPieces number code comment pieces, number ≤ line.number) ∧
      (ofPieces number code comment pieces).Pairwise (·.number ≤ ·.number) := by
  induction pieces generalizing number code comment with
  | nil =>
    rw [ofPieces]
    split <;> simp
  | cons piece rest ih =>
    cases piece with
    | code c => exact ih number (code ++ [c]) comment
    | comment c => exact ih number code (comment ++ [c])
    -- The lines behind a break count from the next number on, so this one is below them.
    | lineBreak =>
      obtain ⟨above, sorted⟩ := ih (number + 1) [] []
      have above : ∀ line ∈ ofPieces (number + 1) [] [] rest, number ≤ line.number :=
        fun line member => Nat.le_of_succ_le (above line member)
      simpa [ofPieces] using ⟨above, sorted⟩

end SourceLine

namespace Suppression

/-- A suppression stands on the line of its comment. -/
theorem line_of_ofLine? {line : SourceLine} {suppression : Suppression}
    (found : ofLine? line = some suppression) : suppression.line = line.number := by
  -- Its line is that of the comment by definition.
  simp only [ofLine?, Option.bind_eq_bind, Option.bind_eq_some_iff] at found
  obtain ⟨after, -, same⟩ := found
  rw [← Option.some.inj same]

/-- The suppressions of a text come in the order of their lines, behind line zero. -/
theorem ofLines_sorted (text : List Char) :
    (∀ suppression ∈ ofLines (SourceLine.ofText text), 0 < suppression.line) ∧
      (ofLines (SourceLine.ofText text)).Pairwise (·.line ≤ ·.line) := by
  -- The lines of a text are sorted, and each suppression has the line of its comment.
  obtain ⟨above, sorted⟩ := SourceLine.ofPieces_sorted 1 [] [] (SourceState.code.pieces text)
  constructor
  · intro suppression member
    obtain ⟨line, isLine, found⟩ := List.mem_filterMap.mp member
    rw [line_of_ofLine? found]
    exact above line isLine
  · refine List.Pairwise.filterMap ofLine? (fun line later ordered => ?_) sorted
    intro first isFirst second isSecond
    rwa [line_of_ofLine? isFirst, line_of_ofLine? isSecond]

/-- The suppressions between two lines cover what the comments on these lines suppress. -/
theorem ofLines_any (lines : List SourceLine) (above upTo : Nat) (column : String) :
    (ofLines lines).any (fun suppression => above < suppression.line && suppression.line ≤ upTo &&
        suppression.covers column) = true ↔
      ∃ line ∈ lines, above < line.number ∧ line.number ≤ upTo ∧
        Suppresses line.comment column := by
  simp only [List.any_eq_true, ofLines, List.mem_filterMap, Bool.and_eq_true, decide_eq_true_eq,
    and_assoc]
  -- A suppression has the line of its comment, so both ways the same line is the one.
  constructor
  · rintro ⟨suppression, ⟨line, member, found⟩, beyond, within, covered⟩
    rw [line_of_ofLine? found] at beyond within
    exact ⟨line, member, beyond, within,
      (ofLine?_suppresses line column).mp (by simp [found, covered])⟩
  · rintro ⟨line, member, beyond, within, suppresses⟩
    have covered := (ofLine?_suppresses line column).mpr suppresses
    cases found : ofLine? line with
    | none => simp [found] at covered
    | some suppression =>
      rw [← line_of_ofLine? found] at beyond within
      exact ⟨suppression, ⟨line, member, found⟩, beyond, within, by simpa [found] using covered⟩

end Suppression

namespace Repository

/-- Keeping the columns that no suppression covers is no other than leaving out those it covers. -/
theorem keptColumns_eq_filter {suppression : Option Suppression} {references : List ColumnReference}
    {seen passed : List (String × String)}
    (agree : ∀ reference : ColumnReference, suppression.any (·.covers reference.column) = false →
      (columnKey reference ∈ seen ↔ columnKey reference ∈ passed)) :
    keptColumns suppression seen references =
      (keptColumns none passed references).filter fun reference =>
        !suppression.any (·.covers reference.column) := by
  -- Columns that are covered are only remembered where nothing is suppressed.
  induction references generalizing seen passed with
  | nil => rfl
  | cons first rest ih =>
    cases covered : suppression.any (·.covers first.column) with
    | true =>
      have agree_more : ∀ reference : ColumnReference,
          suppression.any (·.covers reference.column) = false →
          (columnKey reference ∈ seen ↔ columnKey reference ∈ columnKey first :: passed) := by
        intro reference uncovered
        have apart : columnKey reference ≠ columnKey first := fun same => by
          have alike : lower reference.column = lower first.column := congrArg Prod.snd same
          cases suppression with
          | none => simp at covered
          | some given =>
            simp only [Option.any_some] at covered uncovered
            rw [Suppression.covers_congr alike, covered] at uncovered
            cases uncovered
        simp [agree reference uncovered, apart]
      by_cases repeated : columnKey first ∈ passed
      · simp [keptColumns, covered, repeated, ih agree]
      · simp [keptColumns, covered, repeated, ih agree_more]
    | false =>
      by_cases repeated : columnKey first ∈ passed
      · have before := (agree first covered).mpr repeated
        simp [keptColumns, covered, repeated, before, ih agree]
      · have before : columnKey first ∉ seen := fun member =>
          repeated ((agree first covered).mp member)
        have agree_more : ∀ reference : ColumnReference,
            suppression.any (·.covers reference.column) = false →
            (columnKey reference ∈ columnKey first :: seen ↔
              columnKey reference ∈ columnKey first :: passed) := by
          intro reference uncovered
          simp [agree reference uncovered]
        simp [keptColumns, covered, repeated, before, ih agree_more]

/-- A declared repository: its name, the mapping of its entity, and the members of its body. -/
structure Declared where
  name : List Char
  mapping : TableMapping
  members : List Member

/-- The repository that code declares, if it declares one of a mapped entity. -/
def declared? (mappings : Mappings) (code : List Char) : Option Declared := do
  let code := Glyph.ofCode code
  let declaration ← Declaration.find ["interface".toList, "class".toList] none code
  let opening := declaration.after.dropWhile (·.shown != '{')
  if opening.isEmpty then none
  else
    let header := declaration.after.takeWhile (·.shown != '{')
    -- Unless the header names an entity that has a mapping, there is no repository.
    let entity ← entityName? false (Glyph.shownText header)
    let mapping ← mappings.find entity
    let inside := opening.drop 1
    let body := match Glyph.closeIndex opening with
      | some close => inside.take (close - 1)
      | none => inside
    let line := SourceLine.numberAfter (Glyph.text (code.take (code.length - inside.length)))
    some ⟨declaration.name, mapping, members line body⟩

/-- The members of a declared repository come in the order of their lines. -/
theorem declared_sorted {mappings : Mappings} {code : List Char} {declared : Declared}
    (found : declared? mappings code = some declared) :
    declared.members.Pairwise (·.line ≤ ·.line) := by
  simp only [declared?, Option.bind_eq_bind] at found
  obtain ⟨declaration, -, found⟩ := Option.bind_eq_some_iff.mp found
  split at found
  · -- Past the checks, the members are those of its body.
    cases found
  · obtain ⟨entity, -, found⟩ := Option.bind_eq_some_iff.mp found
    obtain ⟨mapping, -, found⟩ := Option.bind_eq_some_iff.mp found
    cases found
    exact Member.members_sorted _ _

/-- A member's line, and the columns that the member refers to when nothing is suppressed. -/
structure MemberColumns where
  line : Nat
  columns : List QueryColumn

/-- The members of the repository that code declares; there are none if it declares none. -/
def memberParts (file : String) (mappings : Mappings) (code : List Char) : List MemberColumns :=
  (declared? mappings code).toList.flatMap fun declared =>
    declared.members.map fun member =>
      ⟨member.line, memberColumns file declared.name mappings declared.mapping [] [member]⟩

/-- The columns of a text are those of the members that its code declares. -/
theorem columns_eq (file : String) (mappings : Mappings) (text : List Char) :
    columns file mappings text =
      (declared? mappings (SourceLine.codeText (SourceLine.ofText text))).toList.flatMap
        fun declared => memberColumns file declared.name mappings declared.mapping
          (Suppression.ofLines (SourceLine.ofText text)) declared.members := by
  simp only [columns, declared?, Option.bind_eq_bind]
  -- Both give up at the same steps: without a declaration, a body, an entity or a mapping of it.
  cases Declaration.find ["interface".toList, "class".toList] none
    (Glyph.ofCode (SourceLine.codeText (SourceLine.ofText text))) with
  | none => rfl
  | some declaration =>
    simp only [Option.bind_some]
    split
    · rfl
    · cases entityName? false (Glyph.shownText (declaration.after.takeWhile (·.shown != '{'))) with
      | none => rfl
      | some entity =>
        simp only [Option.bind_some]
        cases mappings.find entity with
        | none => rfl
        | some mapping => exact (List.append_nil _).symm

/-- What members refer to, each with the line of the member in front of it. -/
def behind (previous : Nat) : List MemberColumns → List (Nat × MemberColumns)
  | [] => []
  | first :: rest => (previous, first) :: behind first.line rest

section Members

variable (file : String) (repository : List Char) (mappings : Mappings) (mapping : TableMapping)

/-- What a member refers to does not hang on the members in front of it and behind it. -/
theorem memberColumns_cons (pending : List Suppression) (member : Member) (rest : List Member) :
    memberColumns file repository mappings mapping pending (member :: rest) =
      ((memberColumns file repository mappings mapping [] [member]).filter fun column =>
        !(pending.takeWhile (·.line ≤ member.line)).any (·.covers column.column)) ++
      memberColumns file repository mappings mapping
        (pending.dropWhile (·.line ≤ member.line)) rest := by
  simp only [memberColumns, Suppression.take, List.append_nil]
  congr 1
  -- A property has no columns, but takes the directives above it all the same.
  cases member.name with
  | none => rfl
  | some name =>
    have kept := @keptColumns_eq_filter
      (Suppression.combine member.line (pending.takeWhile (·.line ≤ member.line)))
      (methodColumns mappings mapping name member.annotations).2 [] [] fun _ _ => Iff.rfl
    simp only [kept, List.filter_map, Suppression.combine_covers]
    rfl

/-- Members take the suppressions between the lines of the ones in front of them and their own. -/
theorem memberColumns_eq_flatMap {all : List Suppression}
    (sorted : all.Pairwise (·.line ≤ ·.line)) {members : List Member}
    (ordered : members.Pairwise (·.line ≤ ·.line)) {previous : Nat}
    (later : ∀ member ∈ members, previous ≤ member.line) :
    memberColumns file repository mappings mapping (all.filter (previous < ·.line)) members =
      (behind previous (members.map fun member =>
        ⟨member.line, memberColumns file repository mappings mapping [] [member]⟩)).flatMap
        fun part => part.2.columns.filter fun column => !all.any fun suppression =>
          part.1 < suppression.line && suppression.line ≤ part.2.line &&
            suppression.covers column.column := by
  -- What is left behind a member are the suppressions beyond its line.
  induction members generalizing previous with
  | nil => rfl
  | cons member rest ih =>
    obtain ⟨below, ordered⟩ := List.pairwise_cons.mp ordered
    have front : previous ≤ member.line := later member (by simp)
    obtain ⟨taken, left⟩ := Suppression.takeWhile_eq_filter
      (sorted.filter (previous < ·.line)) member.line
    have left : (all.filter (previous < ·.line)).dropWhile (·.line ≤ member.line) =
        all.filter (member.line < ·.line) := by
      rw [left, List.filter_filter]
      refine List.filter_congr fun suppression _ => ?_
      simpa using fun beyond : member.line < suppression.line => Nat.lt_of_le_of_lt front beyond
    rw [memberColumns_cons, left, ih ordered below, taken]
    simp [behind, List.any_filter, Bool.and_assoc, Bool.and_left_comm]

end Members

/-- The members that code declares come in the order of their lines. -/
theorem memberParts_sorted (file : String) (mappings : Mappings) (code : List Char) :
    (memberParts file mappings code).Pairwise (·.line ≤ ·.line) := by
  rw [memberParts]
  -- Without a repository there are no parts, and otherwise each part is a member.
  cases found : declared? mappings code with
  | none => simp
  | some declared =>
    simpa [List.pairwise_map] using declared_sorted found

/-- The columns of a text are those of its members that no comment in front of them suppresses. -/
theorem columns_eq_suppresses (file : String) (mappings : Mappings) (text : List Char) :
    columns file mappings text =
      (behind 0 (memberParts file mappings
        (SourceLine.codeText (SourceLine.ofText text)))).flatMap fun part =>
          part.2.columns.filter fun column => ¬ ∃ line ∈ SourceLine.ofText text,
            part.1 < line.number ∧ line.number ≤ part.2.line ∧
              Suppression.Suppresses line.comment column.column := by
  rw [columns_eq, memberParts]
  cases found : declared? mappings (SourceLine.codeText (SourceLine.ofText text)) with
  | none => rfl
  | some declared =>
    obtain ⟨positive, sorted⟩ := Suppression.ofLines_sorted text
    -- No directive stands on line zero, so all of them are pending at first.
    have all : (Suppression.ofLines (SourceLine.ofText text)).filter (0 < ·.line) =
        Suppression.ofLines (SourceLine.ofText text) := by simpa using positive
    have members := memberColumns_eq_flatMap file declared.name mappings declared.mapping sorted
      (declared_sorted found) (fun member _ => Nat.zero_le member.line)
    rw [all] at members
    simp only [Option.toList_some, List.flatMap_cons, List.flatMap_nil, List.append_nil, members]
    refine List.flatMap_congr fun part _ => List.filter_congr fun column _ => ?_
    rw [Bool.eq_iff_iff, Bool.not_eq_true', ← Bool.not_eq_true, Suppression.ofLines_any]
    simp

/-- The columns of a text are those of its members that no directive in front of them covers. -/
theorem columns_eq_flatMap {text : List Char}
    (plain : ∀ line ∈ SourceLine.ofText text, Suppression.IsPlain line.comment)
    (file : String) (mappings : Mappings) :
    columns file mappings text =
      (behind 0 (memberParts file mappings
        (SourceLine.codeText (SourceLine.ofText text)))).flatMap fun part =>
          part.2.columns.filter fun column => ¬ ∃ line ∈ SourceLine.ofText text,
            part.1 < line.number ∧ line.number ≤ part.2.line ∧
              Suppression.Covers line.comment column.column := by
  -- For a plain comment, to suppress a column is to cover it.
  rw [columns_eq_suppresses]
  refine List.flatMap_congr fun part _ => List.filter_congr fun column _ => ?_
  refine decide_eq_decide.mpr (not_congr (exists_congr fun line => ?_))
  exact and_congr_right fun member => and_congr_right fun _ => and_congr_right fun _ =>
    (plain line member).suppresses_iff column.column

/-- The columns of a text without directives are those of all its members. -/
theorem columns_silent {text : List Char}
    (silent : ∀ line ∈ SourceLine.ofText text, ¬ Suppression.directive <:+: line.comment)
    (file : String) (mappings : Mappings) :
    columns file mappings text =
      (memberParts file mappings (SourceLine.codeText (SourceLine.ofText text))).flatMap
        (·.columns) := by
  have none_given : Suppression.ofLines (SourceLine.ofText text) = [] :=
    List.filterMap_eq_nil_iff.mpr fun line member =>
      Suppression.ofLine?_eq_none (silent line member)
  rw [columns_eq, memberParts, none_given, List.flatMap_assoc]
  refine List.flatMap_congr fun declared _ => ?_
  -- Without directives each member is read with none pending, as if it stood alone.
  induction declared.members with
  | nil => rfl
  | cons member rest ih =>
    rw [memberColumns_cons, List.dropWhile_nil, ih]
    simp

/--
A directive keeps what it covers out of the first member on its line or behind it, and no more.

A member's line is that of a method's name. Each member takes the directives behind the line of the
member in front of it, up to its own line, whether it is a method or not. Nothing else in a comment
bears on the result.
-/
theorem columns_suppressed {text : List Char}
    (plain : ∀ line ∈ SourceLine.ofText text, Suppression.IsPlain line.comment)
    (file : String) (mappings : Mappings) :
    let lines := SourceLine.ofText text
    let parts := memberParts file mappings (SourceLine.codeText lines)
    parts.Pairwise (·.line ≤ ·.line) ∧
      columns file mappings (Suppression.eraseDirectives text) = parts.flatMap (·.columns) ∧
      columns file mappings text = (behind 0 parts).flatMap (fun part =>
        part.2.columns.filter fun column => ¬ ∃ line ∈ lines,
          part.1 < line.number ∧ line.number ≤ part.2.line ∧
            Suppression.Covers line.comment column.column) ∧
      ∀ other, SourceLine.codeText (SourceLine.ofText other) = SourceLine.codeText lines →
        (∀ line ∈ SourceLine.ofText other, ¬ Suppression.directive <:+: line.comment) →
        columns file mappings other = parts.flatMap (·.columns) := by
  -- Without directives the text has the same code, and the same is true of any such text.
  refine ⟨memberParts_sorted file mappings _, ?_, columns_eq_flatMap plain file mappings,
    fun other sameCode silent => ?_⟩
  · rw [columns_silent Suppression.not_isInfix_eraseDirectives,
      Suppression.codeText_eraseDirectives]
  · rw [columns_silent silent, sameCode]

/-- A repository with two directives in front of a method, and one in front of a property. -/
def usersText : List Char :=
  ['\n'].intercalate ([
    "interface Users : Repository<User, Long> \x7b",
    "// kept: idxlint:ignore(\"STATUS\")",
    "/* idxlint:ignore (\"id\", \" \") */",
    "fun findByStatusAndEmail(): User",
    "// idxlint:ignore",
    "val label: String",
    "fun findByStatus(): User \x7d"].map String.toList)

/-- The mapping of the entity of that repository. -/
def usersMapping : TableMapping :=
  .ofDeclared "User" "users" [("status", "status"), ("email", "mail")]

/-- The first method loses one column, and the bare directive is used up by the property. -/
theorem columns_suppressed_users :
    (∀ line ∈ SourceLine.ofText usersText, Suppression.IsPlain line.comment) ∧
      columns "Users.kt" [usersMapping] (Suppression.eraseDirectives usersText) =
        [⟨"users", "status", "Users.findByStatusAndEmail", "Users.kt", 4, .derived⟩,
          ⟨"users", "mail", "Users.findByStatusAndEmail", "Users.kt", 4, .derived⟩,
          ⟨"users", "status", "Users.findByStatus", "Users.kt", 7, .derived⟩] ∧
      columns "Users.kt" [usersMapping] usersText =
        [⟨"users", "mail", "Users.findByStatusAndEmail", "Users.kt", 4, .derived⟩,
          ⟨"users", "status", "Users.findByStatus", "Users.kt", 7, .derived⟩] := by
  -- Both runs are given by the general law, and their columns are computed.
  have plain : ∀ line ∈ SourceLine.ofText usersText, Suppression.IsPlain line.comment := by
    decide +kernel
  obtain ⟨-, erased, kept, -⟩ := columns_suppressed plain "Users.kt" [usersMapping]
  exact ⟨plain, erased.trans (by decide +kernel), kept.trans (by decide +kernel)⟩

end Repository

end IndexAudit
