import IndexAudit.Text.Blank
import IndexAudit.Text.Lowercase
import Mathlib.Data.List.TakeWhile

/-!
Lowering a text a second time changes nothing, and lowering leaves white space and dots alone.

The case table is too large to look at pairs of its entries. What it leads away from and what it
leads to are laid out as bits of two numbers instead, which have none in common. A lowered text has
white space and dots where the text has them. Case looks through a dot, though: a capital sigma in
front of it or behind it may be lowered in another way where two names are joined by a dot than
where each of them stands alone.
-/

namespace IndexAudit

/-! Lowering a second time. -/

/-- The number whose bits are set at the first multiples of a stride. -/
def strideBits (stride : Nat) : Nat → Nat
  | 0 => 0
  | count + 1 => strideBits stride count <<< stride ||| 1

/-- The bits at the first multiples of a stride are set. -/
theorem testBit_strideBits (stride : Nat) :
    ∀ count index, index < count → (strideBits stride count).testBit (index * stride) = true := by
  -- Each further step moves the bits up by a stride and sets the lowest one.
  intro count
  induction count with
  | zero => intro index below; omega
  | succ count ih =>
    intro index below
    cases index with
    | zero => simp [strideBits]
    | succ index =>
      have shifted := ih index (by omega)
      simp [strideBits, Nat.testBit_or, Nat.testBit_shiftLeft, Nat.add_mul, shifted]

namespace CharRun

/-- How many strides a run is long. -/
def steps (run : CharRun) : Nat :=
  (run.last - run.first) / run.stride

/-- The code points of a run, moved to a given start, as the bits of a number. -/
def bitsFrom (run : CharRun) (start : Nat) : Nat :=
  strideBits run.stride (run.steps + 1) <<< start

/-- A code point of a run lies a number of strides behind the first one. -/
theorem holds_eq {run : CharRun} {code : Nat} (held : run.holds code = true) :
    ∃ index ≤ run.steps, code = run.first + index * run.stride := by
  -- The remainder of the distance is zero, so the quotient gives it back.
  simp only [holds, Bool.and_eq_true, decide_eq_true_eq, beq_iff_eq] at held
  obtain ⟨⟨above, below⟩, even⟩ := held
  have back := Nat.div_mul_cancel (Nat.dvd_of_mod_eq_zero even)
  exact ⟨(code - run.first) / run.stride, Nat.div_le_div_right (by omega), by omega⟩

/-- Each code point of a run has its bit, wherever the run is moved to. -/
theorem testBit_bitsFrom (run : CharRun) (start : Nat) {index : Nat} (within : index ≤ run.steps) :
    (run.bitsFrom start).testBit (start + index * run.stride) = true := by
  -- The bit is set in the pattern of strides, which is shifted to its start.
  have inside := testBit_strideBits run.stride (run.steps + 1) index (by omega)
  simp [bitsFrom, Nat.testBit_shiftLeft, inside]

end CharRun

namespace CaseShift

/-- The first code point that a run of the case table leads to. -/
def start (run : CaseShift) : Nat :=
  (run.first + run.shift).toNat

/-- The last code point that a run of the case table may lead to. -/
def stop (run : CaseShift) : Nat :=
  run.start + run.steps * run.stride

/-- Whether a run leads to characters that no rule of its own lowers any further. -/
def leadsToPlain (run : CaseShift) : Bool :=
  decide (0 ≤ run.first + run.shift) &&
    (Nat.blt run.stop 0xD800 || Nat.blt 0xDFFF run.start && Nat.blt run.stop 0x110000) &&
    Nat.blt 0x5A run.start && (Nat.blt run.stop 0x130 || Nat.blt 0x130 run.start)

end CaseShift

/-- The union of the bits that each run of the case table gives. -/
def unionBits (bitsOf : CaseShift → Nat) : Nat :=
  caseShifts.foldl (fun bits run => bits ||| bitsOf run) 0

/-- A bit that one run of the case table gives is in the union. -/
theorem testBit_unionBits (bitsOf : CaseShift → Nat) {run : CaseShift} {code : Nat}
    (member : run ∈ caseShifts) (set : (bitsOf run).testBit code = true) :
    (unionBits bitsOf).testBit code = true := by
  -- The fold only ever adds bits to those it starts from.
  have general : ∀ (runs : List CaseShift) (bits : Nat), bits.testBit code = true ∨ run ∈ runs →
      (runs.foldl (fun bits run => bits ||| bitsOf run) bits).testBit code = true := by
    intro runs
    induction runs with
    | nil => intro bits found; simpa using found
    | cons first rest ih =>
      intro bits found
      refine ih _ ?_
      rcases found with before | found
      · exact Or.inl (by simp [Nat.testBit_or, before])
      rcases List.mem_cons.mp found with same | later
      · subst same
        exact Or.inl (by simp [Nat.testBit_or, set])
      · exact Or.inr later
  exact general caseShifts 0 (Or.inr member)

/-- The case table leads only to characters that no rule of its own lowers any further. -/
theorem caseShifts_plain : caseShifts.all (·.leadsToPlain) = true := by
  -- The table is fixed, so it is gone through once.
  decide +kernel

/-- No code point that the case table leads to is one that it leads away from. -/
theorem caseShifts_apart :
    unionBits (fun run => run.bitsFrom run.start) &&& unionBits (fun run => run.bitsFrom run.first)
      = 0 := by
  -- Both sides of the table are sets of bits, so they are compared at once.
  decide +kernel

/-- No run of the case table holds a code point that another one leads to. -/
theorem caseShifts_find_lowered {run : CaseShift} (member : run ∈ caseShifts) {index : Nat}
    (within : index ≤ run.steps) :
    caseShifts.find? (·.holds (run.start + index * run.stride)) = none := by
  -- A code point on both sides would be a bit of the empty intersection.
  rw [List.find?_eq_none]
  intro other otherMember held
  obtain ⟨place, inside, same⟩ := CharRun.holds_eq held
  have target := testBit_unionBits (fun run => run.bitsFrom run.start) member
    (run.testBit_bitsFrom run.start within)
  have source := testBit_unionBits (fun run => run.bitsFrom run.first) otherMember
    (other.testBit_bitsFrom other.first inside)
  rw [← same] at source
  have both := congrArg (Nat.testBit · (run.start + index * run.stride)) caseShifts_apart
  simp [Nat.testBit_and, target, source] at both

/-- A character that stays as it is when it is lowered. -/
def IsLowered (c : Char) : Prop :=
  c ≠ 'Σ' ∧ lowerChar c = [c]

instance : DecidablePred IsLowered := fun c =>
  inferInstanceAs (Decidable (c ≠ 'Σ' ∧ lowerChar c = [c]))

/-- The number of a character made from a code point is that code point. -/
theorem toNat_ofNat {code : Nat} (valid : code.isValidChar) : (Char.ofNat code).toNat = code := by
  rw [Char.ofNat, dif_pos valid]
  rfl

/-- What an ASCII character is lowered to stays as it is. -/
theorem isLowered_toLower {c : Char} (ascii : c.toNat < 0x80) : IsLowered c.toLower := by
  -- There are few enough ASCII characters to look at each of them.
  have each : ∀ code < 0x80, IsLowered (Char.ofNat code).toLower := by decide +kernel
  simpa using each c.toNat ascii

/-- What the letters with a rule of their own are lowered to stays as it is. -/
theorem isLowered_ruled : ∀ c ∈ ['i', '\u0307', 'ς', 'σ'], IsLowered c := by
  decide

/-- A character that the case table does not lead away from stays as it is. -/
theorem isLowered_of_unshifted {c : Char} (notCapital : 0x5A < c.toNat)
    (notDotted : c.toNat ≠ 0x130) (absent : caseShifts.find? (·.holds c.toNat) = none) :
    IsLowered c := by
  constructor
  · -- The capital sigma is itself in the case table.
    rintro rfl
    exact absurd absent (by decide)
  · have dotted : c.val ≠ 0x130 := fun same => notDotted (congrArg UInt32.toNat same)
    have large : ¬ c.val ≤ 90 := fun small =>
      absurd (UInt32.le_iff_toNat_le.mp small) (Nat.not_le.mpr notCapital)
    have same : c.toLower = c := dif_neg fun capital => large capital.2
    simp [lowerChar, same, dotted, absent]

/-- A character that the case table leads to lies some strides behind the first of its run. -/
theorem toNat_shifted {run : CaseShift} (member : run ∈ caseShifts) {code : Nat}
    (held : run.holds code = true) :
    ∃ index ≤ run.steps,
      (Char.ofNat (code + run.shift).toNat).toNat = run.start + index * run.stride := by
  obtain ⟨index, within, same⟩ := CharRun.holds_eq held
  have plain := List.all_eq_true.mp caseShifts_plain run member
  simp only [CaseShift.leadsToPlain, CaseShift.stop, Bool.and_eq_true, Bool.or_eq_true,
    decide_eq_true_eq, Nat.blt_eq] at plain
  obtain ⟨⟨⟨positive, scalar⟩, -⟩, -⟩ := plain
  -- The moved code point lies as many strides behind the moved start.
  have moved : (code + run.shift).toNat = run.start + index * run.stride := by
    unfold CaseShift.start
    push_cast [same]
    omega
  have inside : index * run.stride ≤ run.steps * run.stride := Nat.mul_le_mul_right _ within
  have valid : (run.start + index * run.stride).isValidChar :=
    show _ < _ ∨ _ < _ ∧ _ < _ by omega
  exact ⟨index, within, by rw [moved, toNat_ofNat valid]⟩

/-- What the case table leads to stays as it is. -/
theorem isLowered_shifted {run : CaseShift} (member : run ∈ caseShifts) {code : Nat}
    (held : run.holds code = true) : IsLowered (Char.ofNat (code + run.shift).toNat) := by
  -- What a run leads to is looked up in the table again, and no run holds it.
  obtain ⟨index, within, number⟩ := toNat_shifted member held
  have plain := List.all_eq_true.mp caseShifts_plain run member
  simp only [CaseShift.leadsToPlain, CaseShift.stop, Bool.and_eq_true, Bool.or_eq_true,
    decide_eq_true_eq, Nat.blt_eq] at plain
  obtain ⟨⟨-, notCapital⟩, notDotted⟩ := plain
  have inside : index * run.stride ≤ run.steps * run.stride := Nat.mul_le_mul_right _ within
  apply isLowered_of_unshifted
  · omega
  · omega
  · rw [number]
    exact caseShifts_find_lowered member within

/-- Every character that another one is lowered to stays as it is. -/
theorem isLowered_lowerChar {c lowered : Char} (notSigma : c ≠ 'Σ')
    (found : lowered ∈ lowerChar c) : IsLowered lowered := by
  -- ASCII, the dotted capital I, what the case table holds, and all other characters.
  unfold lowerChar at found
  split at found
  · rename_i ascii
    rw [List.mem_singleton.mp found]
    exact isLowered_toLower (UInt32.lt_iff_toNat_lt.mp ascii)
  split at found
  · -- The capital I with a dot leads to a letter and a mark.
    rcases List.mem_cons.mp found with same | found
    · subst same
      exact isLowered_ruled _ (by simp)
    · rw [List.mem_singleton.mp found]
      exact isLowered_ruled _ (by simp)
  split at found
  · rename_i run located
    rw [List.mem_singleton.mp found]
    have held := List.find?_some located
    exact isLowered_shifted (List.mem_of_find?_eq_some located) held
  · rename_i notAscii notDotted _ absent
    rw [List.mem_singleton.mp found]
    exact ⟨notSigma, by simp [lowerChar, notAscii, notDotted, absent]⟩

/-- Every character of a lowered text stays as it is. -/
theorem isLowered_lowerAfter {text before : List Char} {lowered : Char}
    (found : lowered ∈ lowerAfter before text) : IsLowered lowered := by
  -- What stands before decides between the two small sigmas, and nothing else.
  induction text generalizing before with
  | nil => simp [lowerAfter] at found
  | cons c rest ih =>
    simp only [lowerAfter, List.mem_append] at found
    rcases found with here | later
    · by_cases sigma : c = 'Σ'
      · -- Both small sigmas are small letters.
        rw [if_pos sigma] at here
        split at here
        all_goals
          rw [List.mem_singleton.mp here]
          exact isLowered_ruled _ (by simp)
      · rw [if_neg sigma] at here
        exact isLowered_lowerChar sigma here
    · exact ih later

/-- A text whose characters all stay as they are stays as it is. -/
theorem lowerAfter_eq_self {text : List Char} (before : List Char)
    (lowered : ∀ c ∈ text, IsLowered c) : lowerAfter before text = text := by
  induction text generalizing before with
  | nil => rfl
  | cons c rest ih =>
    -- The first character is no sigma and stays, and so do the others, whatever is in front.
    obtain ⟨notSigma, same⟩ := lowered c (by simp)
    have tail := ih (c :: before) (fun other member => lowered other (by simp [member]))
    simp [lowerAfter, notSigma, same, tail]

/-- Lowering a text a second time changes nothing. -/
@[simp] theorem lower_lower (text : String) : lower (lower text) = lower text := by
  -- The lowered text consists of characters that stay as they are.
  simp only [lower, lowerChars, String.toList_ofList]
  rw [lowerAfter_eq_self [] (fun c member => isLowered_lowerAfter member)]

/-! Kinds of characters that letter case leaves alone. -/

/-- What takes the place of one character of a text that is lowered. -/
def lowerOne (before : List Char) (c : Char) (rest : List Char) : List Char :=
  if c = 'Σ' then if startsCased before && !startsCased rest then ['ς'] else ['σ']
  else lowerChar c

/-- A text is lowered character by character. -/
theorem lowerAfter_cons (before : List Char) (c : Char) (rest : List Char) :
    lowerAfter before (c :: rest) = lowerOne before c rest ++ lowerAfter (c :: before) rest :=
  rfl

/-- Whether lowering leads neither to characters of some runs nor away from them. -/
def isCaseless (runs : List CharRun) : Bool :=
  -- ASCII, the letters with a rule of their own, and what the case table leads from and to.
  (List.range 0x80).all (fun code =>
      CharRun.covers runs (Char.ofNat code).toLower.toNat == CharRun.covers runs code) &&
    ([0x69, 0x130, 0x307, 0x3A3, 0x3C2, 0x3C3].all fun code => !CharRun.covers runs code) &&
    caseShifts.all fun shift => runs.all fun run =>
      (Nat.blt shift.last run.first || Nat.blt run.last shift.first) &&
        (Nat.blt shift.stop run.first || Nat.blt run.last shift.start)

/-- White space has no letter case. -/
theorem isCaseless_blank : isCaseless blankRuns = true := by
  -- ASCII, the letters with rules of their own and the case table are gone through.
  decide +kernel

/-- A dot has no letter case. -/
theorem isCaseless_dot : isCaseless [⟨0x2E, 0x2E, 1⟩] = true := by
  decide

section Caseless

variable {runs : List CharRun}

/-- Runs do not cover what lies in front of each of them or behind it. -/
theorem covers_eq_false {code : Nat} (apart : ∀ run ∈ runs, code < run.first ∨ run.last < code) :
    CharRun.covers runs code = false := by
  rw [CharRun.covers, List.any_eq_false]
  -- A run that held the code would have it between its ends.
  intro run member held
  simp only [CharRun.holds, Bool.and_eq_true, decide_eq_true_eq] at held
  have := apart run member
  omega

/-- What a character is lowered to is of such a kind exactly if the character is. -/
theorem covers_lowerChar (caseless : isCaseless runs = true) (c : Char) :
    lowerChar c ≠ [] ∧
      ∀ d ∈ lowerChar c, CharRun.covers runs d.toNat = CharRun.covers runs c.toNat := by
  simp only [isCaseless, Bool.and_eq_true, List.all_eq_true, beq_iff_eq, Bool.or_eq_true,
    Nat.blt_eq, Bool.not_eq_true'] at caseless
  obtain ⟨⟨ascii, single⟩, shifted⟩ := caseless
  -- The cases are those of the character: each one is lowered by a rule of its own.
  unfold lowerChar
  split
  · rename_i small
    have small : c.toNat < 0x80 := UInt32.lt_iff_toNat_lt.mp small
    have same := ascii c.toNat (List.mem_range.mpr small)
    rw [Char.ofNat_toNat] at same
    simpa using same
  split
  · -- The capital I with a dot leads to a letter and a mark.
    rename_i dotted
    have number : c.toNat = 0x130 := congrArg UInt32.toNat dotted
    have none := single 0x130 (by simp)
    refine ⟨by simp, fun d found => ?_⟩
    rw [number, none]
    rcases List.mem_cons.mp found with rfl | found
    · exact single 0x69 (by simp)
    · rw [List.mem_singleton.mp found]
      exact single 0x307 (by simp)
  split
  · -- Neither end of a shift is of the kind.
    rename_i run located
    have member := List.mem_of_find?_eq_some located
    have held := List.find?_some located
    obtain ⟨index, within, number⟩ := toNat_shifted member held
    have inside : index * run.stride ≤ run.steps * run.stride := Nat.mul_le_mul_right _ within
    simp only [CharRun.holds, Bool.and_eq_true, decide_eq_true_eq] at held
    have away : CharRun.covers runs c.toNat = false := covers_eq_false fun other listed => by
      have := (shifted run member other listed).1
      omega
    refine ⟨by simp, fun d found => ?_⟩
    rw [List.mem_singleton.mp found, number, away]
    refine covers_eq_false fun other listed => ?_
    have := (shifted run member other listed).2
    unfold CaseShift.stop at this
    omega
  · simp

/-- What takes the place of a character is of such a kind exactly if the character is. -/
theorem covers_lowerOne (caseless : isCaseless runs = true) (before : List Char) (c : Char)
    (rest : List Char) :
    lowerOne before c rest ≠ [] ∧
      ∀ d ∈ lowerOne before c rest, CharRun.covers runs d.toNat = CharRun.covers runs c.toNat := by
  unfold lowerOne
  by_cases sigma : c = 'Σ'
  · -- All three forms of the letter are none of the kind.
    subst sigma
    simp only [isCaseless, Bool.and_eq_true, List.all_eq_true, Bool.not_eq_true'] at caseless
    have small := caseless.1.2 0x3C3 (by simp)
    have final := caseless.1.2 0x3C2 (by simp)
    have capital := caseless.1.2 0x3A3 (by simp)
    rw [if_pos rfl]
    split
    · exact ⟨by simp, fun d found => List.mem_singleton.mp found ▸ final.trans capital.symm⟩
    · exact ⟨by simp, fun d found => List.mem_singleton.mp found ▸ small.trans capital.symm⟩
  · rw [if_neg sigma]
    exact covers_lowerChar caseless c

/-- A lowered text begins with a character of such a kind exactly if the text does. -/
theorem covers_head (caseless : isCaseless runs = true) (before text : List Char) :
    ((lowerAfter before text).head?.map fun d => CharRun.covers runs d.toNat) =
      text.head?.map fun c => CharRun.covers runs c.toNat := by
  -- A character is lowered to one or more, and the first of them is of its kind.
  cases text with
  | nil => rfl
  | cons c rest =>
    obtain ⟨filled, same⟩ := covers_lowerOne caseless before c rest
    obtain ⟨d, more, lowered⟩ := List.exists_cons_of_ne_nil filled
    rw [lowerAfter_cons, lowered]
    simpa using same d (by simp [lowered])

/-- A lowered text ends with a character of such a kind exactly if the text does. -/
theorem covers_getLast (caseless : isCaseless runs = true) (before text : List Char) :
    ((lowerAfter before text).getLast?.map fun d => CharRun.covers runs d.toNat) =
      text.getLast?.map fun c => CharRun.covers runs c.toNat := by
  induction text generalizing before with
  | nil => rfl
  | cons c rest ih =>
    rw [lowerAfter_cons, List.getLast?_append]
    have behind := ih (c :: before)
    cases rest with
    | nil =>
      obtain ⟨filled, same⟩ := covers_lowerOne caseless before c []
      have last := List.getLast?_eq_some_getLast filled
      simpa [lowerAfter, last] using same _ (List.getLast_mem filled)
    | cons d more =>
      -- The last character is one of the rest, of which something is left.
      have filled : lowerAfter (c :: before) (d :: more) ≠ [] := by
        rw [lowerAfter_cons]
        exact List.append_ne_nil_of_left_ne_nil (covers_lowerOne caseless _ d more).1 _
      rw [List.getLast?_eq_some_getLast filled] at behind ⊢
      simpa using behind

/-- A lowered text has no character of such a kind if the text has none. -/
theorem covers_lowerAfter (caseless : isCaseless runs = true) (before : List Char)
    {text : List Char} (none : ∀ c ∈ text, CharRun.covers runs c.toNat = false) :
    ∀ d ∈ lowerAfter before text, CharRun.covers runs d.toNat = false := by
  induction text generalizing before with
  | nil => simp [lowerAfter]
  | cons c rest ih =>
    obtain ⟨here, later⟩ := List.forall_mem_cons.mp none
    intro d found
    -- What is found comes from the first character or from one behind it.
    rcases List.mem_append.mp (lowerAfter_cons before c rest ▸ found) with first | behind
    · exact ((covers_lowerOne caseless before c rest).2 d first).trans here
    · exact ih (c :: before) later d behind

end Caseless

/-! A dot between two names. -/

/-- Where case looks through the first part of a text, the rest decides. -/
theorem startsCased_append (front back : List Char) :
    startsCased (front ++ back) =
      if front.all isCaseIgnorable = true then startsCased back else startsCased front := by
  -- Either the first part is dropped as a whole, or dropping stops inside of it.
  by_cases through : front.all isCaseIgnorable = true
  · rw [if_pos through, startsCased, startsCased,
      List.dropWhile_append_of_pos (List.all_eq_true.mp through)]
  · have left : front.dropWhile isCaseIgnorable ≠ [] := fun none =>
      through (List.all_eq_true.mpr (List.dropWhile_eq_nil_iff.mp none))
    obtain ⟨c, rest, stopped⟩ := List.exists_cons_of_ne_nil left
    rw [if_neg through, startsCased, startsCased, List.dropWhile_append, stopped]
    rfl

/-- Case looks through a dot. -/
theorem startsCased_dot (text : List Char) : startsCased ('.' :: text) = startsCased text := by
  -- The dot is one of the characters that case looks through.
  have through : isCaseIgnorable '.' = true := by decide
  rw [startsCased, List.dropWhile_cons_of_pos through, startsCased]

/-- A text that case looks through has no letter at its start. -/
theorem startsCased_of_all {text : List Char} (through : text.all isCaseIgnorable = true) :
    startsCased text = false := by
  -- Looked through to its end, the text has no character left to tell.
  rw [startsCased, List.dropWhile_eq_nil_iff.mpr (List.all_eq_true.mp through)]
  rfl

/-- A capital sigma is lowered in each of two names as it is in both with a dot between them. -/
structure SigmaApart (table column : List Char) : Prop where
  /-- No letter behind the dot makes a sigma at the end of the table one inside of a word. -/
  atEnd : ∀ front back, table = front ++ 'Σ' :: back → back.all isCaseIgnorable = true →
    startsCased front.reverse = true → startsCased column = false
  /-- No letter in front of the dot makes a sigma in the column the end of a word. -/
  atStart : ∀ front back, column = front ++ 'Σ' :: back → front.all isCaseIgnorable = true →
    startsCased back = false → startsCased table.reverse = false

/-- Names without a capital sigma are lowered the same wherever they stand. -/
theorem sigmaApart_of_notMem {table column : List Char} (noTable : 'Σ' ∉ table)
    (noColumn : 'Σ' ∉ column) : SigmaApart table column where
  -- A sigma at the dot would be one of the name.
  atEnd front back split := absurd (split ▸ by simp) noTable
  atStart front back split := absurd (split ▸ by simp) noColumn

/-- A name is lowered in front of a dot as it is by itself, if no sigma tells the two apart. -/
theorem lowerAfter_dot {before text more : List Char}
    (apart : ∀ front back, text = front ++ 'Σ' :: back → back.all isCaseIgnorable = true →
      startsCased (front.reverse ++ before) = true → startsCased more = false) :
    lowerAfter before (text ++ '.' :: more) =
      lowerAfter before text ++ '.' :: lowerAfter ('.' :: (text.reverse ++ before)) more := by
  -- By induction on the name: each of its characters moves to what stands in front of the rest.
  induction text generalizing before with
  | nil => rfl
  | cons c rest ih =>
    have same : lowerOne before c (rest ++ '.' :: more) = lowerOne before c rest := by
      by_cases sigma : c = 'Σ'
      · -- Only a sigma that nothing but the end follows may look at what stands behind the dot.
        subst sigma
        rw [lowerOne, lowerOne, startsCased_append, startsCased_dot]
        by_cases through : rest.all isCaseIgnorable = true
        · by_cases cased : startsCased before = true
          · simp [through, startsCased_of_all through, apart [] rest rfl through (by simpa)]
          · simp [cased]
        · rw [if_neg through]
      · rw [lowerOne, lowerOne, if_neg sigma, if_neg sigma]
    have later := @ih (c :: before) fun front back split through cased =>
      apart (c :: front) back (by rw [split, List.cons_append]) through (by simpa using cased)
    rw [List.cons_append, lowerAfter_cons, lowerAfter_cons, same, later, List.append_assoc]
    simp

/-- A name is lowered behind a dot as it is by itself, if no sigma tells the two apart. -/
theorem lowerAfter_behind {before text more : List Char}
    (apart : ∀ front back, text = front ++ 'Σ' :: back →
      (front.reverse ++ before).all isCaseIgnorable = true → startsCased back = false →
        startsCased more = false) :
    lowerAfter (before ++ '.' :: more) text = lowerAfter before text := by
  induction text generalizing before with
  | nil => rfl
  | cons c rest ih =>
    have same : lowerOne (before ++ '.' :: more) c rest = lowerOne before c rest := by
      by_cases sigma : c = 'Σ'
      · -- Only a sigma with nothing in front of it may look at what stands before the dot.
        subst sigma
        rw [lowerOne, lowerOne, startsCased_append, startsCased_dot]
        by_cases through : before.all isCaseIgnorable = true
        · by_cases cased : startsCased rest = true
          · simp [cased]
          · simp [through, startsCased_of_all through,
              apart [] rest rfl (by simpa using through) (by simpa using cased)]
        · rw [if_neg through]
      · rw [lowerOne, lowerOne, if_neg sigma, if_neg sigma]
    have later := @ih (c :: before) fun front back split through cased =>
      apart (c :: front) back (by rw [split, List.cons_append]) (by simpa using through) cased
    rw [List.cons_append] at later
    rw [lowerAfter_cons, lowerAfter_cons, same, later]

/-- Two names are lowered with a dot between them as they are by themselves. -/
theorem lowerChars_dot {table column : List Char} (apart : SigmaApart table column) :
    lowerChars (table ++ '.' :: column) = lowerChars table ++ '.' :: lowerChars column := by
  -- Only a sigma looks around itself, and neither name has one at the dot.
  have behind : lowerAfter ([] ++ '.' :: table.reverse) column = lowerAfter [] column :=
    lowerAfter_behind (by simpa using apart.atStart)
  rw [lowerChars, lowerAfter_dot (by simpa using apart.atEnd), List.append_nil]
  rw [List.nil_append] at behind
  rw [behind, lowerChars, lowerChars]

end IndexAudit
