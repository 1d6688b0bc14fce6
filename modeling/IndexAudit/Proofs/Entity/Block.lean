import IndexAudit.Proofs.Code.Block
import IndexAudit.Proofs.Entity.ClassEnd
import IndexAudit.Proofs.Entity.Reading

/-!
Blocks in the body of an entity's class.

Whatever such a block holds, it ends a member that is no field. So the mapping does not hang on it.
-/

namespace IndexAudit

namespace Entity

/-- Code behind which a curly bracket opens the body of an entity's class. -/
structure OpensBody (heading : List Glyph) : Prop where
  /-- No parenthesis is left open in front of the body. -/
  closes : Glyph.ClosesRound heading
  /-- The class has its type parameters closed, and the bracket is the first one for its body. -/
  isClass : ∃ found, class? heading = some found ∧ HeadingCloses found.behind ∧
    bodyIndex? 0 (found.tail ++ [Glyph.plain '{']) = some found.tail.length

/-- A block takes the place of parameters and of arguments, and there are none. -/
theorem beginsAnew_block (code : List Glyph) : BeginsAnew (Glyph.plain '{' :: code) := by
  constructor
  · -- A curly bracket begins no parameters, and no arguments of a base class either.
    rw [constructorParameters?_step]
    rfl
  · intro glyph first
    obtain rfl : Glyph.plain '{' = glyph := Option.some.inj first
    decide

/-- A class whose body is opened has what stands in front of the closing bracket for its body. -/
theorem classBody?_opened {tail : List Glyph}
    (first : bodyIndex? 0 (tail ++ [Glyph.plain '{']) = some tail.length) (code : List Glyph) :
    classBody? (tail ++ Glyph.plain '{' :: code) =
      if (Declaration.find classKeywords none tail).isSome then none
      else (Glyph.closeIndex (Glyph.plain '{' :: code)).map fun close => code.take (close - 1) := by
  -- The bracket that opens the body is the first one, whatever stands behind it.
  have whole : bodyIndex? 0 (tail ++ Glyph.plain '{' :: code) = some tail.length := by
    rw [List.append_cons, bodyIndex?_append, first]
    rfl
  have inside : (tail ++ Glyph.plain '{' :: code).drop (tail.length + 1) = code := by
    rw [List.drop_length_add_append]
    rfl
  rw [classBody?, whole, show ["class".toList] = classKeywords from rfl]
  simp only [Option.bind_eq_bind, Option.bind_some, List.take_left, List.drop_left, inside]
  split
  · rfl
  · rw [Option.map_eq_bind]
    rfl

/-- The members of a body declare the same fields whatever stands in a block. -/
theorem addMembers_block {inner content other : List Glyph} (top : Segment.IsTopLevel inner)
    (fills : Glyph.FillsBlock content) (fillsToo : Glyph.FillsBlock other) (back : List Glyph)
    (entries : List (String × String)) :
    addMembers [] entries (Segment.collect (fun _ => false) 1 0 [] (blockCode inner content back)) =
      addMembers [] entries
        (Segment.collect (fun _ => false) 1 0 [] (blockCode inner other back)) := by
  obtain ⟨members, line, cut⟩ := top.exists_collect (fun _ => false) 1
  rw [cut back fills, cut back fillsToo, addMembers_append, addMembers_append]
  -- The members behind the block only begin on other lines.
  exact addMembers_collect _ _ _ _ _ _ _ _

/-- The mapping of an entity is the same whatever stands in a block of its class. -/
theorem mapping?_block {heading inner content other : List Glyph} (opens : OpensBody heading)
    (top : Segment.IsTopLevel inner) (fills : Glyph.FillsBlock content)
    (fillsToo : Glyph.FillsBlock other) (back : List Glyph) :
    mapping? (heading ++ Glyph.plain '{' :: blockCode inner content back) =
      mapping? (heading ++ Glyph.plain '{' :: blockCode inner other back) := by
  obtain ⟨found, isClass, closesTypes, first⟩ := opens.isClass
  have closes := opens.closes.suffix (class?_isSuffix isClass)
  have apart (code : List Glyph) : Glyph.IsBehind (Glyph.plain '{' :: code) := by
    intro glyph isFirst
    exact .inr (congrArg Glyph.shown (Option.some.inj isFirst).symm)
  -- Up to the body both are read alike, as the heading is all there is in front of it.
  have whole (code : List Glyph) : mapping? (heading ++ Glyph.plain '{' :: code) =
      some (found.mapping (classBody? (found.tail ++ Glyph.plain '{' :: code))) := by
    obtain ⟨fields, tail⟩ :=
      EntityClass.append closesTypes closes (apart code) (beginsAnew_block code)
    rw [mapping?_eq, class?_append isClass opens.closes (apart code), Option.map_some, tail]
    simp only [EntityClass.mapping, fields]
  obtain ⟨stop, body⟩ := top.exists_body back
  rw [whole, whole, classBody?_opened first, classBody?_opened first, body fills, body fillsToo]
  -- A body that is closed is closed at the same place, as the block closes what it opens.
  split
  · rfl
  · cases stop with
    | none => rfl
    | some stop =>
      simp only [EntityClass.mapping, Option.map_some, addMembers_block top fills fillsToo]

end Entity

end IndexAudit
