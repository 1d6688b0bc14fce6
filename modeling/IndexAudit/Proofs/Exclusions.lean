import IndexAudit.Proofs.Comparison
import IndexAudit.Proofs.Text.Blank
import IndexAudit.Proofs.Text.Lowercase

/-!
A finding that is named among the exclusions is left out of the findings.

A finding is named by its table and its column with a dot between them. The name is trimmed and
lowered as a whole, but what it is compared with is joined from a lowered table and a lowered
column. So the ends of the two names matter, and so do dots inside of them.
-/

namespace IndexAudit

/-! Names that are joined by a dot. -/

/-- A lowered text has no dot if the text has none. -/
theorem dot_notMem_lower {text : String} (none : '.' ∉ text.toList) :
    '.' ∉ (lower text).toList := by
  have dots (c : Char) : CharRun.covers [⟨0x2E, 0x2E, 1⟩] c.toNat = false ↔ c ≠ '.' := by
    have number : c.toNat = 0x2E ↔ c = '.' :=
      ⟨fun same => by rw [← Char.ofNat_toNat c, same], fun same => by rw [same]; rfl⟩
    simp only [CharRun.covers, CharRun.holds, List.any_cons, List.any_nil, Bool.or_false,
      Nat.mod_one, beq_self_eq_true, Bool.and_true, Bool.and_eq_false_iff, decide_eq_false_iff_not,
      ne_eq, ← number]
    omega
  intro found
  rw [lower, String.toList_ofList] at found
  -- No character but a dot becomes one in lower case.
  have apart := covers_lowerAfter isCaseless_dot [] (fun c member =>
    (dots c).mpr fun same => none (same ▸ member)) '.' found
  exact (dots '.').mp apart rfl

/-- Names without dots are told from the text that they are joined to. -/
theorem dotted_inj {table column : String} (noTable : '.' ∉ table.toList)
    (noColumn : '.' ∉ column.toList) {otherTable otherColumn : String}
    (same : otherTable ++ "." ++ otherColumn = table ++ "." ++ column) :
    otherTable = table ∧ otherColumn = column := by
  have chars : otherTable.toList ++ '.' :: otherColumn.toList =
      table.toList ++ '.' :: column.toList := by
    simpa using congrArg String.toList same
  -- One of the two dots stands in front of the other, if they are not the same one.
  rcases List.append_eq_append_iff.mp chars with ⟨gap, longer, rest⟩ | ⟨gap, longer, rest⟩
  · cases gap with
    | nil =>
      simp only [List.append_nil, List.nil_append, List.cons.injEq, true_and] at longer rest
      exact ⟨(String.toList_inj.mp longer).symm, String.toList_inj.mp rest⟩
    | cons d gap =>
      obtain rfl : '.' = d := (List.cons.inj rest).1
      exact absurd (longer ▸ by simp) noTable
  · cases gap with
    | nil =>
      simp only [List.append_nil, List.nil_append, List.cons.injEq, true_and] at longer rest
      exact ⟨String.toList_inj.mp longer, (String.toList_inj.mp rest).symm⟩
    | cons d gap =>
      obtain ⟨-, behind⟩ := List.cons.inj rest
      exact absurd (behind ▸ by simp) noColumn

/-- What is seen of one thing that may be missing is not so if the same of another one is not. -/
theorem false_of_map_eq {p : Char → Bool} {one other : Option Char}
    (same : other.map p = one.map p) (none : ∀ d ∈ other, p d = false) :
    ∀ c ∈ one, p c = false := by
  -- If anything is missing on one side, it is so on the other, where the property is false.
  rintro c rfl
  obtain ⟨d, rfl, alike⟩ := Option.map_eq_some_iff.mp same
  exact alike ▸ none d rfl

/-- A name that reads as two others with a dot between them has no white space to be trimmed. -/
theorem lower_trimString {written table column : String}
    (spelled : lower written = lower (table ++ "." ++ column))
    (starts : ∀ c ∈ table.toList.head?, isBlank c = false)
    (ends : ∀ c ∈ column.toList.getLast?, isBlank c = false)
    (apart : SigmaApart table.toList column.toList) :
    lower (trimString written) = lower table ++ "." ++ lower column := by
  have chars : lowerChars written.toList = lowerChars (table.toList ++ '.' :: column.toList) := by
    simpa [lower] using congrArg String.toList spelled
  have dot : isBlank '.' = false := by decide +kernel
  -- What it begins and ends with is white space only if the two names have it there.
  have first : ∀ c ∈ written.toList.head?, isBlank c = false := by
    have same := covers_head isCaseless_blank [] written.toList
    rw [← lowerChars, chars, lowerChars, covers_head isCaseless_blank] at same
    refine false_of_map_eq same ?_
    cases named : table.toList with
    | nil => simpa using dot
    | cons c rest => simpa [named] using starts
  have last : ∀ c ∈ written.toList.getLast?, isBlank c = false := by
    have same := covers_getLast isCaseless_blank [] written.toList
    rw [← lowerChars, chars, lowerChars, covers_getLast isCaseless_blank] at same
    refine false_of_map_eq same ?_
    rw [List.getLast?_append, List.getLast?_cons]
    cases named : column.toList.getLast? with
    | none => simpa using dot
    | some c => simpa [named] using ends
  have trimmed : trimString written = written := by
    rw [trimString, trim_eq first last, String.ofList_toList]
  apply String.toList_inj.mp
  rw [trimmed, lower, String.toList_ofList, chars, lowerChars_dot apart]
  simp [lower]

/-! Findings that are excluded by their names. -/

/-- Nothing is excluded unless something is named. -/
theorem Exclusions.excludes_none (table column : String) :
    (Exclusions.ofNames [] [] []).excludes table column = false :=
  rfl

/-- A single named finding excludes what its name is, joined from a table and a column. -/
theorem Exclusions.excludes_single (written table column : String) :
    (Exclusions.ofNames [] [] [written]).excludes table column =
      (lower table ++ "." ++ lower column == lower (trimString written)) := by
  have normal : normalize [written] =
      if lower (trimString written) = "" then [] else [lower (trimString written)] := by
    by_cases blank : lower (trimString written) = "" <;> simp [normalize, blank]
  by_cases blank : lower (trimString written) = ""
  · -- A blank name is dropped, and no joined name is blank.
    have filled : lower table ++ "." ++ lower column ≠ "" := by
      intro empty
      have chars := congrArg String.toList empty
      simp at chars
    rw [blank, beq_eq_false_iff_ne.mpr filled, excludes, ofNames, normal, if_pos blank]
    rfl
  · rw [excludes, ofNames, normal, if_neg blank]
    simp [normalize, Bool.beq_eq_decide_eq]

namespace MissingIndex

/-- What a finding is compared with to see if it is excluded. -/
def dotted (finding : MissingIndex) : String :=
  lower finding.table ++ "." ++ lower finding.column

variable {service : String} {queries : List QueryColumn} {indexes : List IndexedColumn}

/-- Naming one finding takes from the findings all that read as the name does. -/
theorem compare_single (written : String) :
    compare service queries indexes (.ofNames [] [] [written]) =
      (compare service queries indexes (.ofNames [] [] [])).filter
        (·.dotted ≠ lower (trimString written)) := by
  refine eq_of_ordered (compare_ordered ..) ((compare_ordered ..).filter _) fun finding => ?_
  rw [List.mem_filter, mem_compare, mem_compare, decide_eq_true_eq]
  -- Whether the query behind a finding is excluded hangs on the name of the finding alone.
  have missing (query : QueryColumn) :
      query.IsMissing indexes (.ofNames [] [] [written]) ↔
        query.IsMissing indexes (.ofNames [] [] []) ∧
          (ofQuery service query).dotted ≠ lower (trimString written) := by
    rw [QueryColumn.IsMissing, QueryColumn.IsMissing, Exclusions.excludes_none,
      Exclusions.excludes_single, beq_eq_false_iff_ne]
    constructor
    · rintro ⟨named, apart, led⟩
      exact ⟨⟨named, rfl, led⟩, apart⟩
    · rintro ⟨⟨named, -, led⟩, apart⟩
      exact ⟨named, apart, led⟩
  constructor
  · rintro ⟨query, first, isMissing, rfl⟩
    obtain ⟨before, apart⟩ := (missing query).mp isMissing
    exact ⟨⟨query, first, before, rfl⟩, apart⟩
  · rintro ⟨⟨query, first, before, rfl⟩, apart⟩
    exact ⟨query, first, (missing query).mpr ⟨before, apart⟩, rfl⟩

/-- Findings of the same table and column are the same. -/
theorem eq_of_parts {exclusions : Exclusions} {a b : MissingIndex}
    (one : a ∈ compare service queries indexes exclusions)
    (other : b ∈ compare service queries indexes exclusions) (table : lower a.table = lower b.table)
    (column : lower a.column = lower b.column) : a = b := by
  -- Both are the first query of their key, and the keys are the same.
  obtain ⟨query, first, -, rfl⟩ := (mem_compare a).mp one
  obtain ⟨source, sourceFirst, -, rfl⟩ := (mem_compare b).mp other
  rw [first.eq_of_key sourceFirst (Prod.ext table column)]

/--
A finding that is named hides the findings that are named alike.

Named alike are findings whose tables and columns, in lower case and with a dot between them, are
the same text. Without a dot in its table and its column, there is only the finding itself.
-/
theorem compare_excluded {finding : MissingIndex}
    (found : finding ∈ compare service queries indexes (.ofNames [] [] []))
    {written : String} (spelled : lower written = lower (finding.table ++ "." ++ finding.column))
    (starts : ∀ c ∈ finding.table.toList.head?, isBlank c = false)
    (ends : ∀ c ∈ finding.column.toList.getLast?, isBlank c = false)
    (apart : SigmaApart finding.table.toList finding.column.toList) :
    let earlier := compare service queries indexes (.ofNames [] [] [])
    let later := compare service queries indexes (.ofNames [] [] [written])
    later = earlier.filter (·.dotted ≠ finding.dotted) ∧
      ('.' ∉ finding.table.toList → '.' ∉ finding.column.toList →
        later = earlier.filter (· ≠ finding)) := by
  intro earlier later
  have hidden : later = earlier.filter (·.dotted ≠ finding.dotted) := by
    have named := lower_trimString spelled starts ends apart
    rw [show later = _ from compare_single written, named]
    rfl
  refine ⟨hidden, fun noTable noColumn => ?_⟩
  rw [hidden]
  refine List.filter_congr fun other member => ?_
  -- Without further dots, what reads alike has the same table and the same column.
  have alone : other.dotted = finding.dotted ↔ other = finding := by
    constructor
    · intro same
      obtain ⟨table, column⟩ :=
        dotted_inj (dot_notMem_lower noTable) (dot_notMem_lower noColumn) same
      exact eq_of_parts member found table column
    · rintro rfl
      rfl
  exact decide_eq_decide.mpr (not_congr alone)

/-- The finding on one of two columns is named in other letters, and hidden alone. -/
theorem compare_excluded_email :
    let email : QueryColumn := ⟨"Users", "Email", "Users.findByEmail", "Users.kt", 2, .derived⟩
    let name : QueryColumn := ⟨"users", "name", "Users.findByName", "Users.kt", 3, .derived⟩
    let earlier := compare "accounts" [email, name] [] (.ofNames [] [] [])
    ofQuery "accounts" email ∈ earlier ∧ ofQuery "accounts" name ∈ earlier ∧
      compare "accounts" [email, name] [] (.ofNames [] [] ["USERS.eMail"]) =
        earlier.filter (· ≠ ofQuery "accounts" email) := by
  intro email name earlier
  have emailFound : ofQuery "accounts" email ∈ earlier := (mem_compare _).mpr
    ⟨email, Keyed.isFirst_head _ _ _, ⟨by decide +kernel, rfl, by simp⟩, rfl⟩
  have nameFound : ofQuery "accounts" name ∈ earlier := (mem_compare _).mpr
    ⟨name, ⟨[email], [], rfl, by decide +kernel⟩, ⟨by decide +kernel, rfl, by simp⟩, rfl⟩
  -- There is no sigma in the names, whose letter case would depend on its place.
  have apart : SigmaApart "Users".toList "Email".toList :=
    sigmaApart_of_notMem (by decide) (by decide)
  have spelled : lower "USERS.eMail" = lower ("Users" ++ "." ++ "Email") := by decide +kernel
  exact ⟨emailFound, nameFound,
    (compare_excluded emailFound spelled (by decide) (by decide) apart).2 (by decide) (by decide)⟩

/-- A finding hides alone if naming it takes nothing else from the findings on queries. -/
def HidesAlone (queries : List QueryColumn) (finding : MissingIndex) : Prop :=
  compare "s" queries [] (.ofNames [] [] [finding.table ++ "." ++ finding.column]) =
    (compare "s" queries [] (.ofNames [] [] [])).filter (· ≠ finding)

/-- A finding that hides alone is what reads as its name does, and nothing else is. -/
theorem HidesAlone.alike {queries : List QueryColumn} {finding other : MissingIndex}
    (alone : HidesAlone queries finding)
    (found : other ∈ compare "s" queries [] (.ofNames [] [] [])) :
    other.dotted = lower (trimString (finding.table ++ "." ++ finding.column)) ↔
      other = finding := by
  -- What is left does not read so, and is also what is left without the finding.
  rw [HidesAlone, compare_single] at alone
  have kept := Iff.of_eq (congrArg (other ∈ ·) alone)
  simp only [List.mem_filter, decide_eq_true_eq, found, true_and] at kept
  exact not_iff_not.mp kept

/-- A query of one column of a table. -/
def queryOf (table column : String) : QueryColumn :=
  ⟨table, column, "R.f", "R.kt", 1, .derived⟩

/-- The first of some queries has a finding, if its column is not the identifier. -/
theorem mem_compare_head {query : QueryColumn} (named : lower query.column ≠ "id")
    (rest : List QueryColumn) :
    ofQuery "s" query ∈ compare "s" (query :: rest) [] (.ofNames [] [] []) :=
  -- The first query is the first one of its key, and nothing is indexed or excluded.
  (mem_compare _).mpr ⟨query, Keyed.isFirst_head _ _ _, ⟨named, rfl, by simp⟩, rfl⟩

/--
A finding may hide another one beside it, or not even be hidden.

Two names may be divided by another dot, white space at the ends of a name is trimmed, and a
capital sigma may be lowered in another way in front of a dot and a letter.
-/
theorem compare_excluded_ne :
    (∃ finding ∈ compare "s" [queryOf "a.b" "c", queryOf "a" "b.c"] [] (.ofNames [] [] []),
        ¬ HidesAlone [queryOf "a.b" "c", queryOf "a" "b.c"] finding) ∧
      (∃ finding ∈ compare "s" [queryOf " users" "email"] [] (.ofNames [] [] []),
        ¬ HidesAlone [queryOf " users" "email"] finding) ∧
      (∃ finding ∈ compare "s" [queryOf "ΑΣ" "x"] [] (.ofNames [] [] []),
        ¬ HidesAlone [queryOf "ΑΣ" "x"] finding) := by
  have other : ofQuery "s" (queryOf "a" "b.c") ∈
      compare "s" [queryOf "a.b" "c", queryOf "a" "b.c"] [] (.ofNames [] [] []) :=
    (mem_compare _).mpr ⟨queryOf "a" "b.c",
      ⟨[queryOf "a.b" "c"], [], rfl, by decide +kernel⟩, ⟨by decide +kernel, rfl, by simp⟩, rfl⟩
  have blank := @mem_compare_head (queryOf " users" "email") (by decide +kernel) []
  have sigma := @mem_compare_head (queryOf "ΑΣ" "x") (by decide +kernel) []
  refine ⟨⟨_, mem_compare_head (by decide +kernel) _, fun alone => ?_⟩,
    ⟨_, blank, fun alone => ?_⟩, ⟨_, sigma, fun alone => ?_⟩⟩
  · -- The other finding reads as the name of this one does.
    exact absurd ((alone.alike other).mp (by decide +kernel)) (by decide +kernel)
  · exact absurd ((alone.alike blank).mpr rfl) (by decide +kernel)
  · exact absurd ((alone.alike sigma).mpr rfl) (by decide +kernel)

end MissingIndex

end IndexAudit
