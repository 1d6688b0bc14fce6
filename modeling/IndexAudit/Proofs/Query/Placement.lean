import IndexAudit.Proofs.Code.Following
import IndexAudit.Proofs.Query.Suppression

/-!
Repositories further down in their files.

All that a repository's place decides are the numbers of its lines. So it is read as if it stood
alone behind text in which no class or interface is declared. Any class or interface in front of it
takes its place instead.
-/

namespace IndexAudit

/-! Lines that are counted from further up. -/

/-- A suppression that stands further down. -/
def Suppression.below (count : Nat) (suppression : Suppression) : Suppression :=
  { suppression with line := suppression.line + count }

/-- A segment that begins further down. -/
def Segment.below (count : Nat) (segment : Segment) : Segment :=
  { segment with line := segment.line + count }

/-- A member that stands further down. -/
def Member.below (count : Nat) (member : Member) : Member :=
  { member with line := member.line + count }

/-- A column that a method further down refers to. -/
def QueryColumn.below (count : Nat) (column : QueryColumn) : QueryColumn :=
  { column with line := column.line + count }

namespace Suppression

/-- Directives are the same on lines further down. -/
theorem ofLines_below (count : Nat) (lines : List SourceLine) :
    ofLines (lines.map (SourceLine.below count)) = (ofLines lines).map (below count) := by
  -- A directive is read off its comment, and only its line moves.
  have one (line : SourceLine) :
      ofLine? (line.below count) = (ofLine? line).map (below count) := by
    simp only [ofLine?, SourceLine.below]
    cases afterDirective? line.comment <;> rfl
  simp [ofLines, List.filterMap_map, List.map_filterMap, one]

/-- Behind a text without directives those of another text stand further down, and no others. -/
theorem ofLines_behind {front : List Char} (closed : IsClosed front)
    (silent : ∀ line ∈ SourceLine.ofText front, ¬ directive <:+: line.comment)
    (text : List Char) :
    ofLines (SourceLine.ofText (front ++ '\n' :: text)) =
      (ofLines (SourceLine.ofText text)).map (below (front.count '\n' + 1)) := by
  have frontLines : ofLines (SourceLine.ofText (front ++ ['\n'])) = [] := by
    refine List.filterMap_eq_nil_iff.mpr fun line member => ofLine?_eq_none ?_
    -- The only line that is not one of the text has no comment.
    rcases closed.comment_of_mem member with isLine | empty
    · exact silent line isLine
    · rw [empty, List.infix_nil]
      decide
  rw [closed.ofText_append, ← ofLines_below, ofLines, List.filterMap_append]
  exact congrArg (· ++ _) frontLines

/-- Several directives have the same joint effect further down. -/
theorem combine_below (count line : Nat) (list : List Suppression) :
    combine (line + count) (list.map (below count)) = (combine line list).map (below count) := by
  -- Which columns are suppressed does not depend on lines.
  have bare : (list.map (below count)).any (·.columns.isEmpty) = list.any (·.columns.isEmpty) := by
    simp [List.any_map, Function.comp_def, below]
  have columns : (list.map (below count)).flatMap (·.columns) = list.flatMap (·.columns) := by
    simp [List.flatMap_map, below]
  simp only [combine, List.isEmpty_map, bare, columns]
  split
  · rfl
  · split <;> rfl

/-- A member takes the same directives if all of them stand further down. -/
theorem take_below (count line : Nat) (pending : List Suppression) :
    take (pending.map (below count)) (line + count) =
      ((take pending line).1.map (below count), (take pending line).2.map (below count)) := by
  -- A directive and a member that both move keep their order.
  have within : (fun suppression : Suppression => decide ((below count suppression).line ≤
      line + count)) = fun suppression => decide (suppression.line ≤ line) := by
    funext suppression
    simp [below]
  simp only [take, List.takeWhile_map, List.dropWhile_map, Function.comp_def, within,
    combine_below]

end Suppression

/-- A body has the same segments further down. -/
theorem Segment.collect_below (runsOn : List Char → Bool) (count start depth : Nat)
    (current code : List Glyph) :
    collect runsOn (start + count) depth current code =
      (collect runsOn start depth current code).map (below count) := by
  match code with
  | [] => simp [collect, below]
  | glyph :: rest =>
    have shorter : (afterBlock (glyph :: rest)).length < rest.length + 1 :=
      afterBlock_length (List.cons_ne_nil glyph rest)
    rw [collect, collect]
    -- The next segment begins by the same number of lines behind this one.
    split
    · have next := collect_below runsOn count
        (start + lineBreaks current.reverse +
          (lineBreaks (glyph :: rest) - lineBreaks (afterBlock (glyph :: rest)))) 0 []
        (afterBlock (glyph :: rest))
      rw [List.map_cons, ← next]
      simp only [below, List.cons.injEq, true_and]
      congr 1
      omega
    split
    · have next := collect_below runsOn count
        (start + lineBreaks current.reverse + if glyph.shown = '\n' then 1 else 0) 0 [] rest
      rw [List.map_cons, ← next]
      simp only [below, List.cons.injEq, true_and]
      congr 1
      omega
    · exact collect_below runsOn count start _ _ rest
termination_by code.length

/-- Segments make up the same members further down. -/
theorem Member.ofSegments_below (count : Nat) (pending : List AnnotationUse)
    (segments : List Segment) :
    ofSegments pending (segments.map (Segment.below count)) =
      (ofSegments pending segments).map (below count) := by
  induction segments generalizing pending with
  | nil => rfl
  | cons segment rest ih =>
    obtain ⟨code, line, opensBlock⟩ := segment
    -- The code in front of the declaration is part of the segment.
    have breaks : Segment.lineBreaks (AnnotationUse.leading code).2 ≤ Segment.lineBreaks code :=
      Segment.lineBreaks_isSuffix (AnnotationUse.leading_isSuffix code)
    have front (further : Nat) : line + count + Segment.lineBreaks code -
        Segment.lineBreaks (AnnotationUse.leading code).2 + further = line +
          Segment.lineBreaks code - Segment.lineBreaks (AnnotationUse.leading code).2 + further +
            count := by
      omega
    rw [List.map_cons, Segment.below, ofSegments, ofSegments]
    dsimp only
    split
    · exact ih _
    · cases methodName? (Glyph.shownText (AnnotationUse.leading code).2) with
      | none => simp only [ih, List.map_cons, front, below]
      | some found => simp only [ih, List.map_cons, front, below]

namespace Repository

/-- A body has the same members further down. -/
theorem members_below (count line : Nat) (body : List Glyph) :
    members (line + count) body = (members line body).map (Member.below count) := by
  -- Segments keep their order further down, and so do the members made up of them.
  rw [members, members, Segment.collect_below, Member.ofSegments_below]

/-- Which columns are kept does not hang on the line of the directive. -/
theorem keptColumns_below (count : Nat) (suppression : Option Suppression)
    (seen : List (String × String)) (references : List ColumnReference) :
    keptColumns (suppression.map (Suppression.below count)) seen references =
      keptColumns suppression seen references := by
  -- A directive covers columns by their names.
  have covers (column : String) :
      (suppression.map (Suppression.below count)).any (·.covers column) =
        suppression.any (·.covers column) := by
    cases suppression <;> rfl
  induction references generalizing seen with
  | nil => rfl
  | cons first rest ih => simp only [keptColumns, covers, ih]

/-- Members refer to the same columns further down, with the same directives. -/
theorem memberColumns_below (count : Nat) (file : String) (repository : List Char)
    (mappings : Mappings) (mapping : TableMapping) (pending : List Suppression)
    (members : List Member) :
    memberColumns file repository mappings mapping (pending.map (Suppression.below count))
        (members.map (Member.below count)) =
      (memberColumns file repository mappings mapping pending members).map
        (QueryColumn.below count) := by
  induction members generalizing pending with
  | nil => rfl
  | cons member rest ih =>
    -- A member takes what stands in front of it, and both have moved by the same lines.
    have taken := Suppression.take_below count member.line pending
    rw [List.map_cons, memberColumns, memberColumns]
    simp only [Member.below, taken, ih, keptColumns_below, List.map_append]
    congr 1
    cases member.name with
    | none => rfl
    | some name =>
      simp only [List.map_map]
      rfl

/-- Each column of members is one of a named member, on the line of that. -/
theorem exists_member {file : String} {repository : List Char} {mappings : Mappings}
    {mapping : TableMapping} {pending : List Suppression} {members : List Member}
    {column : QueryColumn}
    (listed : column ∈ memberColumns file repository mappings mapping pending members) :
    ∃ member ∈ members, ∃ method ∈ member.name, column.line = member.line ∧
      column.source = String.ofList (repository ++ '.' :: method) := by
  -- Whatever is pending decides which columns are left out, not where the others stand.
  induction members generalizing pending with
  | nil => cases listed
  | cons first rest ih =>
    rw [memberColumns] at listed
    rcases List.mem_append.mp listed with here | later
    · cases named : first.name with
      | none => simp [named] at here
      | some name =>
        simp only [named, List.mem_map] at here
        obtain ⟨reference, -, rfl⟩ := here
        exact ⟨first, List.mem_cons_self, name, named, rfl, rfl⟩
    · obtain ⟨member, isMember, found⟩ := ih later
      exact ⟨member, List.mem_cons_of_mem first isMember, found⟩

/-! Code in front of a repository. -/

/-- The keywords of what can be a repository. -/
def keywords : List (List Char) :=
  ["interface".toList, "class".toList]

/-- The keywords are words. -/
theorem isName_of_mem_keywords : ∀ keyword ∈ keywords, IsName keyword := by
  intro keyword member
  -- There are two of them.
  rcases List.mem_pair.mp member with rfl | rfl
  · exact ⟨by decide, by decide⟩
  · exact ⟨by decide, by decide⟩

/-- The repository that code declares, if it declares one of a mapped entity, as searches see it. -/
def declaredIn? (mappings : Mappings) (code : List Glyph) : Option Declared := do
  let declaration ← Declaration.find keywords none code
  let opening := declaration.after.dropWhile (·.shown != '{')
  if opening.isEmpty then none
  else
    let header := declaration.after.takeWhile (·.shown != '{')
    let entity ← entityName? false (Glyph.shownText header)
    let mapping ← mappings.find entity
    let inside := opening.drop 1
    let body := match Glyph.closeIndex opening with
      | some close => inside.take (close - 1)
      | none => inside
    let line := SourceLine.numberAfter (Glyph.text (code.take (code.length - inside.length)))
    some ⟨declaration.name, mapping, members line body⟩

/-- The repository that a text declares is the one that its code does. -/
theorem declared?_eq (mappings : Mappings) (text : List Char) :
    declared? mappings (SourceLine.codeText (SourceLine.ofText text)) =
      declaredIn? mappings (codeGlyphs text) :=
  rfl

/-- A repository that stands further down. -/
def Declared.below (count : Nat) (declared : Declared) : Declared :=
  { declared with members := declared.members.map (Member.below count) }

/-- Behind code that declares nothing, code declares what it declares by itself. -/
theorem declaredIn?_behind (mappings : Mappings) {front code : List Glyph} {gap : Nat}
    (nothing : Declaration.find keywords none front = none)
    (complete : Declaration.awaitsName keywords none front = false)
    (apart : gap = 0 → code = []) :
    declaredIn? mappings (front ++ (List.replicate gap (Glyph.plain '\n') ++ code)) =
      (declaredIn? mappings code).map (Declared.below ((Glyph.text front).count '\n' + gap)) := by
  have passed := Declaration.find_lineBreaks isName_of_mem_keywords apart nothing complete
  rw [declaredIn?, passed, declaredIn?]
  cases found : Declaration.find keywords none code with
  | none => rfl
  | some declaration =>
    simp only [Option.map_some, Option.bind_eq_bind, Option.bind_some]
    split
    · rfl
    -- The line of the body counts the breaks in front of it, and those of the code in front.
    have inside : (declaration.after.dropWhile (·.shown != '{')).drop 1 <:+ code :=
      (List.drop_suffix _ _).trans
        ((List.dropWhile_suffix _).trans (Declaration.find_isSuffix found))
    generalize (declaration.after.dropWhile (·.shown != '{')).drop 1 = body at inside ⊢
    have within := inside.length_le
    have line : SourceLine.numberAfter (Glyph.text
        ((front ++ (List.replicate gap (Glyph.plain '\n') ++ code)).take
          ((front ++ (List.replicate gap (Glyph.plain '\n') ++ code)).length - body.length))) =
        SourceLine.numberAfter (Glyph.text (code.take (code.length - body.length))) +
          ((Glyph.text front).count '\n' + gap) := by
      have position : (front ++ (List.replicate gap (Glyph.plain '\n') ++ code)).length -
          body.length = front.length + (gap + (code.length - body.length)) := by
        simp only [List.length_append, List.length_replicate]
        omega
      have breaks := @List.take_length_add_append _ (List.replicate gap (Glyph.plain '\n')) code
        (code.length - body.length)
      rw [List.length_replicate] at breaks
      rw [position, List.take_length_add_append, breaks]
      simp only [SourceLine.numberAfter, Glyph.text, List.map_append, List.map_replicate,
        List.count_append, Glyph.plain, List.count_replicate_self]
      omega
    rw [line]
    cases entityName? false
        (Glyph.shownText (declaration.after.takeWhile (·.shown != '{'))) with
    | none => rfl
    | some entity =>
      simp only [Option.bind_some]
      cases mappings.find entity with
      | none => rfl
      | some mapping =>
        simp only [Option.bind_some, members_below, Option.map_some, Declared.below]

/-- A declared repository has the name of the first class or interface. -/
theorem name_of_declaredIn? {mappings : Mappings} {code : List Glyph} {first : Declaration}
    (found : Declaration.find keywords none code = some first) {declared : Declared}
    (isDeclared : declaredIn? mappings code = some declared) : declared.name = first.name := by
  -- Past the checks, the result has the name of the first declaration.
  simp only [declaredIn?, found, Option.bind_eq_bind, Option.bind_some] at isDeclared
  split at isDeclared
  · cases isDeclared
  · obtain ⟨entity, -, isDeclared⟩ := Option.bind_eq_some_iff.mp isDeclared
    obtain ⟨mapping, -, isDeclared⟩ := Option.bind_eq_some_iff.mp isDeclared
    rw [← Option.some.inj isDeclared]

/-- Nothing is declared if the header of the first class or interface names no entity. -/
theorem declaredIn?_eq_none {mappings : Mappings} {code : List Glyph} {first : Declaration}
    (found : Declaration.find keywords none code = some first)
    (nameless : entityName? false
      (Glyph.shownText (first.after.takeWhile (·.shown != '{'))) = none) :
    declaredIn? mappings code = none := by
  -- The entity is looked for in this header alone.
  simp only [declaredIn?, found, nameless, Option.bind_eq_bind, Option.bind_some,
    Option.bind_none]
  split <;> rfl

/-- The header of a declaration ends in front of its brace, whatever comes behind. -/
theorem header_append {after : List Glyph} (opens : ∃ glyph ∈ after, glyph.shown = '{')
    (code : List Glyph) :
    (after ++ code).takeWhile (·.shown != '{') = after.takeWhile (·.shown != '{') := by
  obtain ⟨glyph, member, brace⟩ := opens
  rw [List.takeWhile_append, if_neg]
  intro full
  -- Else there would be no brace in front.
  have all := (List.takeWhile_sublist _).eq_of_length full
  have kept := List.mem_takeWhile_imp (all ▸ member)
  simp [brace] at kept

/--
A repository is read as if it stood alone, behind text in which nothing else is declared.

The text in front leaves no comment, no literal and no declaration open, and gives no directives.
If a class or an interface is declared in it, that one stands for the repository: all columns are
said to come from it, and if its own header names no entity, there are none.
-/
theorem columns_behind {front : List Char} (closed : IsClosed front) (file : String)
    (mappings : Mappings) (text : List Char) :
    (Declaration.find keywords none (codeGlyphs front) = none →
      Declaration.awaitsName keywords none (codeGlyphs front) = false →
      (∀ line ∈ SourceLine.ofText front, ¬ Suppression.directive <:+: line.comment) →
      columns file mappings (front ++ '\n' :: text) =
        (columns file mappings text).map (QueryColumn.below (front.count '\n' + 1))) ∧
    ∀ first, Declaration.find keywords none (codeGlyphs front) = some first →
      (∀ column ∈ columns file mappings (front ++ '\n' :: text),
        ∃ method, column.source = String.ofList (first.name ++ '.' :: method)) ∧
      ((∃ glyph ∈ first.after, glyph.shown = '{') →
        entityName? false (Glyph.shownText (first.after.takeWhile (·.shown != '{'))) = none →
        columns file mappings (front ++ '\n' :: text) = []) := by
  obtain ⟨gap, whole, apart, count⟩ := closed.codeGlyphs_append text
  constructor
  · intro nothing complete silent
    rw [columns_eq, columns_eq, declared?_eq, declared?_eq, whole,
      Suppression.ofLines_behind closed silent, declaredIn?_behind mappings nothing complete apart]
    -- Without lines there is no code, so no number of a line can be wrong.
    by_cases empty : SourceLine.ofText text = []
    · have noCode : codeGlyphs text = [] := by simp [codeGlyphs, empty, SourceLine.codeText,
        Glyph.ofCode, LiteralState.glyphs]
      simp [noCode, declaredIn?, Declaration.find]
    · rw [count empty]
      cases declaredIn? mappings (codeGlyphs text) with
      | none => rfl
      | some declared => simp [Declared.below, memberColumns_below]
  · intro first found
    -- The first class or interface is in front, so it stays the first with more code behind.
    have found := Declaration.find_append_some isName_of_mem_keywords
      (Glyph.isBehind_lineBreaks apart) found
    rw [← whole] at found
    rw [columns_eq, declared?_eq]
    constructor
    · intro column member
      cases isDeclared : declaredIn? mappings (codeGlyphs (front ++ '\n' :: text)) with
      | none => simp [isDeclared] at member
      | some declared =>
        have name : declared.name = first.name := name_of_declaredIn? found isDeclared
        simp only [isDeclared, Option.toList_some, List.flatMap_cons, List.flatMap_nil,
          List.append_nil, name] at member
        obtain ⟨-, -, method, -, -, source⟩ := exists_member member
        exact ⟨method, source⟩
    · intro opens nameless
      rw [declaredIn?_eq_none found (by rw [header_append opens]; exact nameless)]
      rfl

/-- An object and a function, in which a class is named in a literal and in a comment. -/
def namesText : List Char :=
  ['\n'].intercalate (["object Names \x7b", "    val kinds = listOf(\"class A\") // class B",
    "\x7d", "fun label() = \"x\""].map String.toList)

/-- A class. -/
def helperText : List Char :=
  "class Helper \x7b \x7d".toList

/-- A repository with one method. -/
def mailText : List Char :=
  ['\n'].intercalate (["interface Mails : Repository<User, Long> \x7b",
    "    fun findByEmail(): User", "\x7d"].map String.toList)

/-- Behind an object and a function the repository is found, and behind a class it is not. -/
theorem columns_behind_names :
    IsClosed namesText ∧ Declaration.find keywords none (codeGlyphs namesText) = none ∧
      Declaration.awaitsName keywords none (codeGlyphs namesText) = false ∧
      (∀ line ∈ SourceLine.ofText namesText, ¬ Suppression.directive <:+: line.comment) ∧
      columns "Mails.kt" [usersMapping] (namesText ++ '\n' :: mailText) =
        [⟨"users", "mail", "Mails.findByEmail", "Mails.kt", 6, .derived⟩] ∧
      IsClosed helperText ∧
      (Declaration.find keywords none (codeGlyphs helperText)).map (·.name) =
        some "Helper".toList ∧
      columns "Mails.kt" [usersMapping] (helperText ++ '\n' :: mailText) = [] := by
  have closed : IsClosed namesText := by decide +kernel
  have nothing : Declaration.find keywords none (codeGlyphs namesText) = none := by decide +kernel
  have complete : Declaration.awaitsName keywords none (codeGlyphs namesText) = false := by
    decide +kernel
  have silent : ∀ line ∈ SourceLine.ofText namesText,
      ¬ Suppression.directive <:+: line.comment := by decide +kernel
  -- Neither a repository nor a keyword that waits for its name is above.
  have below := (columns_behind closed "Mails.kt" [usersMapping] mailText).1 nothing complete silent
  have helperClosed : IsClosed helperText := by decide +kernel
  have helper : Declaration.find keywords none (codeGlyphs helperText) =
      some ⟨[], "Helper".toList, " \x7b \x7d".toList.map Glyph.plain⟩ := by decide +kernel
  -- The class is found first, and is no repository.
  have hidden := ((columns_behind helperClosed "Mails.kt" [usersMapping] mailText).2 _ helper).2
    ⟨Glyph.plain '{', by decide, rfl⟩ (by decide +kernel)
  refine ⟨closed, nothing, complete, silent, below.trans (by decide +kernel), helperClosed, ?_,
    hidden⟩
  rw [helper]
  rfl

end Repository

end IndexAudit
