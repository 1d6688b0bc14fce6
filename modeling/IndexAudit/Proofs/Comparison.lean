import IndexAudit.Comparison
import IndexAudit.Proofs.Keyed
import IndexAudit.Proofs.Text.Lowercase

/-!
The findings on a service are determined by four conditions on them, whatever is in the lists that
are compared.
-/

namespace IndexAudit

/-- The index leads with the column of the query, letter case aside. -/
def IndexedColumn.LeadsFor (indexed : IndexedColumn) (query : QueryColumn) : Prop :=
  indexed.position = 0 ∧ lower indexed.table = lower query.table ∧
    lower indexed.column = lower query.column

/-- The column of the query is no identifier, not excluded, and led by no index. -/
def QueryColumn.IsMissing (indexes : List IndexedColumn) (exclusions : Exclusions)
    (query : QueryColumn) : Prop :=
  lower query.column ≠ "id" ∧ exclusions.excludes query.table query.column = false ∧
    ∀ indexed ∈ indexes, ¬ indexed.LeadsFor query

namespace MissingIndex

/-- The findings that the columns of queries come to beside the indexes and exclusions there are. -/
structure IsReport (service : String) (queries : List QueryColumn) (indexes : List IndexedColumn)
    (exclusions : Exclusions) (findings : List MissingIndex) : Prop where
  /-- Tables and, within a table, columns strictly increase in lower case. -/
  ordered : findings.Pairwise fun a b => a.columnParts < b.columnParts
  /-- Exactly the missing columns are found. -/
  keys : ∀ table column,
    (∃ finding ∈ findings, lower finding.table = table ∧ lower finding.column = column) ↔
      ∃ query ∈ queries, query.key = (table, column) ∧ query.IsMissing indexes exclusions
  /-- Everything else is told of the first query that uses the column. -/
  first : ∀ finding ∈ findings, ∃ query, Keyed.IsFirst QueryColumn.key queries query ∧
    finding = ⟨service, query.table, query.column, query.source, query.file, query.line,
      query.queryType⟩

variable {service : String} {queries : List QueryColumn} {indexes : List IndexedColumn}
  {exclusions : Exclusions}

/-- What is excluded does not depend on letter case. -/
theorem excludes_lower (exclusions : Exclusions) (table column : String) :
    exclusions.excludes (lower table) (lower column) = exclusions.excludes table column := by
  -- Excluding lowers both names once more, which changes nothing.
  simp [Exclusions.excludes]

/-- A query is reported exactly when its column is missing. -/
theorem isReported_iff (query : QueryColumn) :
    isReported indexes exclusions query = true ↔ query.IsMissing indexes exclusions := by
  -- The exclusions lower the names once more, which changes nothing.
  simp only [isReported, QueryColumn.key, QueryColumn.IsMissing, IndexedColumn.LeadsFor,
    IndexedColumn.leads, idField, excludes_lower, Bool.and_eq_true, Bool.not_eq_true',
    List.any_eq_false, beq_iff_eq, bne_iff_ne, and_assoc]
  exact and_left_comm

/-- Whether a query is reported depends on its key alone. -/
theorem isReported_of_key (a b : QueryColumn) (same : a.key = b.key) :
    isReported indexes exclusions a = isReported indexes exclusions b := by
  simp only [isReported, same]

/-- Columns of one key are missing together. -/
theorem isMissing_of_key {a b : QueryColumn} (same : a.key = b.key)
    (missing : a.IsMissing indexes exclusions) : b.IsMissing indexes exclusions := by
  -- Whether a column is reported is told by its key.
  rw [← isReported_iff] at missing ⊢
  rw [← isReported_of_key a b same, missing]

/-- A column is found exactly by the first query that uses it, if it is missing. -/
theorem mem_compare (finding : MissingIndex) :
    finding ∈ compare service queries indexes exclusions ↔
      ∃ query, Keyed.IsFirst QueryColumn.key queries query ∧
        query.IsMissing indexes exclusions ∧ ofQuery service query = finding := by
  -- Queries of one key are reported together, so the first one reported is the first one of all.
  simp only [compare, Keyed.mem_sort, List.mem_map, Keyed.mem_firsts,
    Keyed.isFirst_filter isReported_of_key, isReported_iff, and_assoc]

/-- The tables and columns of findings strictly increase. -/
theorem compare_ordered (service : String) (queries : List QueryColumn)
    (indexes : List IndexedColumn) (exclusions : Exclusions) :
    (compare service queries indexes exclusions).Pairwise
      fun a b => a.columnParts < b.columnParts := by
  -- No key is taken twice, and a finding has the key of its query.
  apply Keyed.sort_strict
  rw [List.map_map]
  have once := Keyed.firsts_keys_nodup QueryColumn.key
    (queries.filter (isReported indexes exclusions))
  rw [List.nodup_iff_pairwise_ne, List.pairwise_map] at once ⊢
  refine once.imp ?_
  intro a b apart same
  simp only [Function.comp_apply, columnParts, ofQuery, List.cons.injEq, and_true] at same
  exact apart (Prod.ext same.1 same.2)

/-- What the comparison gives is a report. -/
theorem compare_isReport (service : String) (queries : List QueryColumn)
    (indexes : List IndexedColumn) (exclusions : Exclusions) :
    IsReport service queries indexes exclusions (compare service queries indexes exclusions) := by
  refine ⟨compare_ordered service queries indexes exclusions, ?_, ?_⟩
  · -- Each finding stands for the key of a missing query, and each such key for a finding.
    intro table column
    constructor
    · rintro ⟨finding, member, rfl, rfl⟩
      obtain ⟨query, first, missing, rfl⟩ := (mem_compare finding).mp member
      exact ⟨query, first.mem, rfl, missing⟩
    · -- The first query of a missing column's key is missing as well.
      rintro ⟨query, member, named, missing⟩
      obtain ⟨first, isFirst, same⟩ := Keyed.exists_isFirst QueryColumn.key member
      have firstMissing := isMissing_of_key same.symm missing
      have parts := Prod.mk.inj (same.trans named)
      exact ⟨ofQuery service first, (mem_compare _).mpr ⟨first, isFirst, firstMissing, rfl⟩,
        parts.1, parts.2⟩
  · intro finding member
    obtain ⟨query, first, _, rfl⟩ := (mem_compare finding).mp member
    exact ⟨query, first, rfl⟩

/-- What one report finds, any other report on the same lists finds too. -/
theorem IsReport.mem_of_mem {a b : List MissingIndex}
    (one : IsReport service queries indexes exclusions a)
    (other : IsReport service queries indexes exclusions b) {finding : MissingIndex}
    (member : finding ∈ a) : finding ∈ b := by
  -- Both take what they tell from the first query of the same key.
  obtain ⟨query, first, rfl⟩ := one.first finding member
  obtain ⟨found, foundMember, table, column⟩ :=
    (other.keys _ _).mpr ((one.keys _ _).mp ⟨_, member, rfl, rfl⟩)
  obtain ⟨source, sourceFirst, rfl⟩ := other.first found foundMember
  rw [first.eq_of_key sourceFirst (Prod.ext table.symm column.symm)]
  exact foundMember

/-- Of the same findings, only one list has their tables and columns strictly increase. -/
theorem eq_of_ordered {a b : List MissingIndex}
    (one : a.Pairwise fun x y => x.columnParts < y.columnParts)
    (other : b.Pairwise fun x y => x.columnParts < y.columnParts)
    (same : ∀ finding, finding ∈ a ↔ finding ∈ b) : a = b := by
  -- A strict order leaves no finding twice, and no choice of where it stands.
  have once : ∀ {findings : List MissingIndex},
      (findings.Pairwise fun x y => x.columnParts < y.columnParts) → findings.Nodup :=
    fun ordered => ordered.imp fun {x y} less same => absurd (same ▸ less) (lt_irrefl _)
  have perm : a.Perm b := (List.perm_ext_iff_of_nodup (once one) (once other)).mpr same
  exact perm.eq_of_pairwise (fun x y _ _ less more => absurd (lt_trans less more) (lt_irrefl _))
    one other

/-- There is only one report on given lists. -/
theorem IsReport.unique {a b : List MissingIndex}
    (one : IsReport service queries indexes exclusions a)
    (other : IsReport service queries indexes exclusions b) : a = b :=
  -- Both are in strict order, and each holds what the other holds.
  eq_of_ordered one.ordered other.ordered fun _ =>
    ⟨one.mem_of_mem other, other.mem_of_mem one⟩

/-- Only the indexes' leading columns, each as often as one likes and in any order, matter. -/
theorem isReport_of_leading {others : List IndexedColumn} {findings : List MissingIndex}
    (leading : ∀ indexed, indexed.position = 0 → (indexed ∈ others ↔ indexed ∈ indexes))
    (report : IsReport service queries indexes exclusions findings) :
    IsReport service queries others exclusions findings := by
  -- Of the indexes, a column's being missing only asks for those that lead.
  have alike : ∀ query : QueryColumn,
      query.IsMissing others exclusions ↔ query.IsMissing indexes exclusions := by
    intro query
    refine and_congr_right' (and_congr_right' (forall_congr' fun indexed => ?_))
    constructor
    · exact fun missing member leads => missing ((leading indexed leads.1).mpr member) leads
    · exact fun missing member leads => missing ((leading indexed leads.1).mp member) leads
  refine ⟨report.ordered, ?_, report.first⟩
  intro table column
  simp only [report.keys, alike]

/--
A comparison gives the one report on what it is given.

Of the indexes it looks at the set of leading columns alone.
-/
theorem compare_exact (service : String) (queries : List QueryColumn)
    (indexes : List IndexedColumn) (exclusions : Exclusions) :
    (∀ findings, compare service queries indexes exclusions = findings ↔
      IsReport service queries indexes exclusions findings) ∧
    ∀ others : List IndexedColumn,
      (∀ indexed, indexed.position = 0 → (indexed ∈ others ↔ indexed ∈ indexes)) →
      compare service queries others exclusions = compare service queries indexes exclusions := by
  -- The comparison gives a report, and there is only one.
  have report := compare_isReport service queries indexes exclusions
  refine ⟨fun findings => ⟨?_, ?_⟩, ?_⟩
  · rintro rfl
    exact report
  · exact fun other => report.unique other
  · intro others leading
    have before := isReport_of_leading leading report
    exact (compare_isReport service queries others exclusions).unique before

/-- An index named twice, beside the second column of another one, counts like the index alone. -/
theorem compare_exact_repeated :
    let leading : IndexedColumn := ⟨"users", "email", "by_email", "a.sql", false, false, 0⟩
    let second : IndexedColumn := ⟨"users", "name", "by_both", "b.sql", false, false, 1⟩
    let query : QueryColumn := ⟨"Users", "Name", "UserRepository.findByName", "U.kt", 3, .derived⟩
    (∀ indexed : IndexedColumn, indexed.position = 0 →
      (indexed ∈ [leading, second, leading] ↔ indexed ∈ [leading])) ∧
    compare "accounts" [query] [leading, second, leading] ⟨[], [], []⟩ =
      compare "accounts" [query] [leading] ⟨[], [], []⟩ := by
  intro leading second query
  -- Only the first columns of indexes count, and both lists have the same.
  have alike : ∀ indexed : IndexedColumn, indexed.position = 0 →
      (indexed ∈ [leading, second, leading] ↔ indexed ∈ [leading]) := by
    intro indexed first
    have notSecond : indexed ≠ second := by
      rintro rfl
      exact absurd first (by decide)
    simp [notSecond]
  exact ⟨alike, (compare_exact "accounts" [query] [leading] ⟨[], [], []⟩).2 _ alike⟩

end MissingIndex

end IndexAudit
