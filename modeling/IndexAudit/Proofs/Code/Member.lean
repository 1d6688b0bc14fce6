import IndexAudit.Proofs.Code.Enclosure

/-!
The members of a body are cut where they end.

Code through which a member goes on belongs to that member alone. What stands behind code changes
none of the members that end in it, as long as each block in it is closed.
-/

namespace IndexAudit

namespace Segment

/-- Whether a member goes on through all of code, from a given nesting of brackets. -/
def goesOn (depth : Nat) : List Glyph → Bool
  | [] => true
  | glyph :: rest =>
    (depth != 0 || (glyph.shown != '\x7b' && glyph.shown != ';' && glyph.shown != '\n')) &&
      goesOn (depthAfter depth glyph.shown) rest

/-- What ends a member that has no block. -/
def Stops (glyph : Glyph) : Prop :=
  glyph.shown = ';' ∨ glyph.shown = '\n'

instance (glyph : Glyph) : Decidable (Stops glyph) :=
  inferInstanceAs (Decidable (_ ∨ _))

/-- A member goes on through code that nothing in it ends. -/
theorem goesOn_of_forall {code : List Glyph}
    (apart : ∀ glyph ∈ code, glyph.shown ≠ ';' ∧ glyph.shown ≠ '\n' ∧ glyph.shown ≠ '\x7b')
    (depth : Nat) : goesOn depth code = true := by
  -- None of the three characters that could end the member comes, at any depth.
  induction code generalizing depth with
  | nil => rfl
  | cons glyph code ih =>
    obtain ⟨⟨noStop, noBreak, noBlock⟩, later⟩ := List.forall_mem_cons.mp apart
    simp [goesOn, noStop, noBreak, noBlock, ih later]

/-- White space is no bracket. -/
theorem bracketOf_of_isSpacing {c : Char} (spaced : isSpacing c = true) :
    Glyph.bracketOf c = .level := by
  -- There are five such characters, and each is looked at.
  simp only [isSpacing, Bool.or_eq_true, decide_eq_true_eq] at spaced
  rcases spaced with (((rfl | rfl) | rfl) | rfl) | rfl <;> rfl

section Collect

variable {runsOn : List Char → Bool}

/-- Code through which a member goes on is all that member's. -/
theorem collect_goesOn {start depth : Nat} {current code : List Glyph}
    (within : goesOn depth code = true) (rest : List Glyph) :
    collect runsOn start depth current (code ++ rest) =
      collect runsOn start (depthBehind depth code) (code.reverse ++ current) rest := by
  induction code generalizing depth current with
  | nil => rfl
  | cons glyph code ih =>
    rw [goesOn, Bool.and_eq_true] at within
    obtain ⟨here, later⟩ := within
    -- Outside brackets it neither ends the member nor opens a block; inside nothing does.
    have stays : Stays depth [glyph] := by
      by_cases level : depth = 0
      · refine .inr fun other member => ?_
        simp only [level, bne_self_eq_false, Bool.false_or, Bool.and_eq_true, bne_iff_ne] at here
        rw [List.mem_singleton.mp member]
        exact ⟨here.1.2, here.2, here.1.1⟩
      · exact .inl level
    rw [List.cons_append, collect_cons stays, ih later]
    simp

/-- A member ends in front of its block, and the next one begins behind that. -/
theorem collect_block {start : Nat} {current code : List Glyph} {glyph : Glyph}
    (opens : glyph.shown = '\x7b') :
    collect runsOn start 0 current (glyph :: code) = ⟨current.reverse, start, true⟩ ::
      collect runsOn (start + lineBreaks current.reverse +
        (lineBreaks (glyph :: code) - lineBreaks (afterBlock (glyph :: code)))) 0 []
        (afterBlock (glyph :: code)) := by
  -- At the top a curly bracket ends the member, by the first branch of the walk.
  rw [collect, if_pos ⟨rfl, opens⟩]

/-- A member ends in front of what ends it. -/
theorem collect_stop {start : Nat} {current code : List Glyph} {glyph : Glyph}
    (stops : glyph.shown = ';' ∨ (glyph.shown = '\n' ∧
      ¬ runsOn (Glyph.shownText current.reverse))) :
    collect runsOn start 0 current (glyph :: code) = ⟨current.reverse, start, false⟩ ::
      collect runsOn (start + lineBreaks current.reverse + if glyph.shown = '\n' then 1 else 0)
        0 [] code := by
  -- The brace that opens a block is tested first, and is neither of these.
  have noBlock : ¬ (0 = 0 ∧ glyph.shown = '\x7b') := by
    rintro ⟨-, opens⟩
    rw [opens] at stops
    rcases stops with stops | ⟨stops, -⟩ <;> exact absurd stops (by decide)
  rw [collect, if_neg noBlock, if_pos ⟨rfl, stops⟩]

/-- A block ends where it does, whatever stands behind, if its brackets are closed. -/
theorem afterBlock_append {glyph : Glyph} {code : List Glyph}
    (closes : Glyph.ClosesBrackets (glyph :: code)) (opens : glyph.shown = '\x7b')
    (rest : List Glyph) :
    afterBlock (glyph :: (code ++ rest)) = afterBlock (glyph :: code) ++ rest := by
  obtain ⟨close, closed⟩ := Option.isSome_iff_exists.mp
    (closes (glyph :: code) (List.suffix_refl _) (by simp [opens, Glyph.bracketOf]))
  -- The bracket that closes the block is in the code.
  have within := Nest.closeIndex_lt closed
  rw [← List.cons_append, afterBlock, afterBlock, closed, Glyph.closeIndex,
    Nest.closeIndex_append closed rest]
  exact List.drop_append_of_le_length within

/-- What follows a block is the end of the code. -/
theorem afterBlock_isSuffix (code : List Glyph) : afterBlock code <:+ code := by
  -- What is left is cut off the front, or it is nothing.
  unfold afterBlock
  split
  · exact List.drop_suffix _ code
  · exact List.nil_suffix

/-- The line breaks of two parts of code are those of both. -/
theorem lineBreaks_append (front back : List Glyph) :
    lineBreaks (front ++ back) = lineBreaks front + lineBreaks back := by
  simp [lineBreaks, Glyph.text]

/-- There is always a last member, which holds what is left of the code. -/
theorem collect_ne_nil (start depth : Nat) (current code : List Glyph) :
    collect runsOn start depth current code ≠ [] := by
  induction code generalizing depth current with
  | nil => simp [collect]
  | cons glyph code ih =>
    rw [collect]
    -- A member is told where it ends, and the last one where the code ends.
    split
    · exact List.cons_ne_nil _ _
    split
    · exact List.cons_ne_nil _ _
    · exact ih _ _

/--
The members of code are the same in front of more code, if only white space is left of the last.

That white space belongs to the member behind.
-/
theorem collect_append {start depth : Nat} {current code : List Glyph}
    (closes : Glyph.ClosesBrackets code)
    (level : (∀ glyph ∈ current, isSpacing glyph.shown = true) → depth = 0)
    {members : List Segment} {left : List Glyph} {line : Nat}
    (cut : collect runsOn start depth current code = members ++ [⟨left, line, false⟩])
    (blank : ∀ glyph ∈ left, isSpacing glyph.shown = true) (rest : List Glyph) :
    ∃ next, collect runsOn start depth current (code ++ rest) =
      members ++ collect runsOn next 0 left.reverse rest := by
  -- The recursion is that of the members, the current one of which goes on.
  match code with
  | [] =>
    rw [collect] at cut
    obtain ⟨rfl, same⟩ : members = [] ∧ current.reverse = left := by
      cases members with
      | nil => exact ⟨rfl, (Segment.mk.inj (List.cons.inj cut).1).1⟩
      | cons member members => simp at cut
    -- Only white space is left, which opened nothing.
    have outside : depth = 0 := level fun glyph member =>
      blank glyph (same ▸ List.mem_reverse.mpr member)
    exact ⟨start, by rw [outside, ← same, List.reverse_reverse]; rfl⟩
  | glyph :: code =>
    have ends := closes.suffix (List.suffix_cons glyph code)
    -- Behind the end of a member there is another one, so the end is not the last one's.
    have further {first : Segment} {next : Nat} {behind : List Glyph}
        (cut : first :: collect runsOn next 0 [] behind = members ++ [⟨left, line, false⟩]) :
        ∃ others, members = first :: others ∧
          collect runsOn next 0 [] behind = others ++ [⟨left, line, false⟩] := by
      cases members with
      | nil => exact absurd (List.cons.inj cut).2 (collect_ne_nil _ _ _ _)
      | cons member members =>
        obtain ⟨rfl, later⟩ := List.cons.inj cut
        exact ⟨members, rfl, later⟩
    by_cases block : depth = 0 ∧ glyph.shown = '\x7b'
    · obtain ⟨rfl, opens⟩ := block
      have shorter : (afterBlock (glyph :: code)).length < code.length + 1 :=
        afterBlock_length (List.cons_ne_nil glyph code)
      rw [collect_block opens] at cut
      obtain ⟨others, rfl, later⟩ := further cut
      obtain ⟨next, found⟩ := collect_append
        (closes.suffix (afterBlock_isSuffix (glyph :: code))) (fun _ => rfl) later blank rest
      -- The block has as many lines with more code behind it.
      have lines : lineBreaks (glyph :: (code ++ rest)) -
          lineBreaks (afterBlock (glyph :: code) ++ rest) =
          lineBreaks (glyph :: code) - lineBreaks (afterBlock (glyph :: code)) := by
        rw [← List.cons_append, lineBreaks_append, lineBreaks_append, Nat.add_sub_add_right]
      rw [List.cons_append, collect_block opens, afterBlock_append closes opens, lines, found]
      exact ⟨next, rfl⟩
    by_cases ended : depth = 0 ∧ (glyph.shown = ';' ∨
        glyph.shown = '\n' ∧ ¬ runsOn (Glyph.shownText current.reverse))
    · obtain ⟨rfl, stops⟩ := ended
      rw [collect_stop stops] at cut
      obtain ⟨others, rfl, later⟩ := further cut
      obtain ⟨next, found⟩ := collect_append ends (fun _ => rfl) later blank rest
      rw [List.cons_append, collect_stop stops, found]
      exact ⟨next, rfl⟩
    · rw [collect, if_neg block, if_neg ended] at cut
      rw [List.cons_append, collect, if_neg block, if_neg ended]
      -- White space in the current member leaves the nesting where it was.
      refine collect_append ends (fun spaced => ?_) cut blank rest
      obtain ⟨here, before⟩ := List.forall_mem_cons.mp spaced
      rw [level before]
      exact depthAfter_flat (bracketOf_of_isSpacing here) 0
termination_by code.length

end Collect

end Segment

end IndexAudit
