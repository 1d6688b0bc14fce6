import IndexAudit.Proofs.Code.Lockstep
import IndexAudit.Proofs.Text.Search

/-!
The rows that line feeds divide a source text into, and the code on each of them.

What a row holds is told from that row and from what the rows in front of it leave open. Main
statement: the lines of a text are its rows, in order, so the code in front of which so many line
breaks stand is code of the row with that number.
-/

namespace IndexAudit

namespace SourceState

/-- The code on each of several rows, read one after the other. -/
def rowCode (state : SourceState) : List (List Char) → List (List Char)
  | [] => []
  | row :: rows =>
    SourcePiece.codeOf (state.pieces row) :: rowCode (state.after row).afterLineBreak rows

/-- There is code, or none, on each of the rows. -/
@[simp] theorem length_rowCode (state : SourceState) (rows : List (List Char)) :
    (state.rowCode rows).length = rows.length := by
  -- Each row has its own code, even if that is empty.
  induction rows generalizing state with
  | nil => rfl
  | cons row rows ih => simp [rowCode, ih]

/-- The code on a row has no line breaks. -/
theorem lineBreak_notMem_rowCode (state : SourceState) {rows : List (List Char)}
    (inLines : ∀ row ∈ rows, '\n' ∉ row) : ∀ code ∈ state.rowCode rows, '\n' ∉ code := by
  induction rows generalizing state with
  | nil => simp [rowCode]
  | cons row rows ih =>
    obtain ⟨inLine, later⟩ := List.forall_mem_cons.mp inLines
    refine List.forall_mem_cons.mpr ⟨?_, ih _ later⟩
    -- Code has the line breaks of its text, and a row has none.
    rw [← List.count_eq_zero, (SourcePiece.count_pieces state row).2, List.count_eq_zero]
    exact inLine

/-- The code on the rows, with line breaks between, is the code of the text. -/
theorem intercalate_rowCode (state : SourceState) {rows : List (List Char)} (filled : rows ≠ []) :
    ['\n'].intercalate (state.rowCode rows) =
      SourcePiece.codeOf (state.pieces (['\n'].intercalate rows)) := by
  induction rows generalizing state with
  | nil => exact absurd rfl filled
  | cons row rows ih =>
    by_cases last : rows = []
    · simp [last, rowCode]
    -- Every row has a line of code, even if nothing is on it.
    · have more : (state.after row).afterLineBreak.rowCode rows ≠ [] := by
        simpa [← List.length_eq_zero_iff] using last
      rw [rowCode, List.intercalate_cons_of_ne_nil more, List.intercalate_cons_of_ne_nil last,
        ih _ last, List.append_assoc, List.append_assoc, List.singleton_append, List.singleton_append,
        pieces_lineBreak, SourcePiece.codeOf_append]
      rfl

end SourceState

namespace SourceLine

/-- Lines are numbered one after the other. -/
theorem number_ofPieces {number index : Nat} {code comment : List Char} {pieces : List SourcePiece}
    {line : SourceLine} (found : (ofPieces number code comment pieces)[index]? = some line) :
    line.number = number + index := by
  induction pieces generalizing number index code comment with
  | nil =>
    rw [ofPieces] at found
    split at found
    · cases found
    · obtain ⟨rfl, rfl⟩ : index = 0 ∧ _ := by
        simpa [List.getElem?_singleton, eq_comm] using found
      rfl
  | cons piece pieces ih =>
    cases piece with
    | code c => exact ih found
    | comment c => exact ih found
    | lineBreak =>
      cases index with
      -- The line that ends here is the first one, and the others come behind it.
      | zero =>
        obtain rfl := Option.some.inj found
        rfl
      | succ index =>
        have later : line.number = number + 1 + index := ih found
        omega

/-- The code of lines is what line breaks divide the code of their pieces into. -/
theorem splitOn_codeOf (number : Nat) {code : List Char} (comment : List Char)
    {pieces : List SourcePiece} (inLine : '\n' ∉ code) (inLines : .code '\n' ∉ pieces) :
    ∃ blank, (code ++ SourcePiece.codeOf pieces).splitOn '\n' =
        (ofPieces number code comment pieces).map (·.code) ++ blank ∧
      ∀ row ∈ blank, row = [] := by
  induction pieces generalizing number code comment with
  | nil =>
    rw [SourcePiece.codeOf, List.append_nil, List.splitOn_eq_singleton inLine, ofPieces]
    -- A last line without code or comment is no line, but a blank row.
    split
    · rename_i empty
      exact ⟨[code], rfl, by simpa using (Bool.and_eq_true_iff.mp empty).1⟩
    · exact ⟨[], rfl, by simp⟩
  | cons piece pieces ih =>
    rw [List.mem_cons, not_or] at inLines
    obtain ⟨apart, inLines⟩ := inLines
    cases piece with
    | code c =>
      have inLine : '\n' ∉ code ++ [c] := by
        rw [List.mem_append, List.mem_singleton]
        rintro (inFront | rfl)
        · exact inLine inFront
        · exact apart rfl
      simpa [ofPieces, SourcePiece.codeOf] using ih number comment inLine inLines
    | comment c => exact ih number (comment ++ [c]) inLine inLines
    | lineBreak =>
      obtain ⟨blank, later, empty⟩ := ih (number + 1) [] List.not_mem_nil inLines
      refine ⟨blank, ?_, empty⟩
      rw [SourcePiece.codeOf, List.splitOn_append_cons_self, List.splitOn_eq_singleton inLine,
        ← List.nil_append (SourcePiece.codeOf pieces), later]
      rfl

/-- The code on the rows of a text is what line breaks divide its code into. -/
theorem rowCode_splitOn (text : List Char) :
    SourceState.code.rowCode (text.splitOn '\n') =
      (SourcePiece.codeOf (SourceState.code.pieces text)).splitOn '\n' := by
  have filled := List.splitOn_ne_nil '\n' text
  have whole := SourceState.intercalate_rowCode .code filled
  rw [List.intercalate_splitOn] at whole
  rw [← whole]
  -- No row holds a line break, so the code of none does.
  refine (List.splitOn_intercalate '\n' (SourceState.code.lineBreak_notMem_rowCode ?_) ?_).symm
  · exact fun _ => notMem_of_mem_splitOn
  · simpa [← List.length_eq_zero_iff] using filled

/-- What stands behind line breaks in the code of a text stands on the row with their number. -/
theorem exists_row {text before word after : List Char}
    (whole : codeText (ofText text) = before ++ word ++ after) (inLine : '\n' ∉ word)
    (filled : word ≠ []) :
    ∃ line ∈ ofText text, line.number = before.count '\n' + 1 ∧ word <:+: line.code ∧
      (SourceState.code.rowCode (text.splitOn '\n'))[before.count '\n']? = some line.code := by
  obtain ⟨gap, code⟩ := codeOf_eq 1 [] [] (SourceState.code.pieces text)
  rw [List.nil_append, ← ofText, whole, List.append_assoc] at code
  obtain ⟨row, found, inside⟩ :=
    getElem?_splitOn inLine before (after ++ List.replicate gap '\n')
  rw [← code, ← rowCode_splitOn] at found
  -- The rows are the lines, behind which at most an empty one is left.
  obtain ⟨blank, rows, empty⟩ := splitOn_codeOf 1 [] List.not_mem_nil
    (SourceState.lineBreak_notMem_pieces .code text)
  rw [List.nil_append, ← rowCode_splitOn, ← ofText] at rows
  rw [rows] at found ⊢
  by_cases within : before.count '\n' < (ofText text).length
  · rw [List.getElem?_append_left (by simpa using within), List.getElem?_map] at found ⊢
    obtain ⟨line, isLine, rfl⟩ := Option.map_eq_some_iff.mp found
    refine ⟨line, List.mem_of_getElem? isLine, ?_, inside, found⟩
    rw [number_ofPieces isLine, Nat.add_comm]
  · rw [List.getElem?_append_right (by simpa using within)] at found
    obtain rfl := empty row (List.mem_of_getElem? found)
    exact absurd (List.infix_nil.mp inside) filled

end SourceLine

end IndexAudit
