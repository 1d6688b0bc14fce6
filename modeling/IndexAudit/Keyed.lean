/-! Lists of things that are the same when their keys are. -/

namespace IndexAudit

namespace Keyed

/-- The first of the things with each key, apart from keys seen before. -/
def firstsAfter {α κ : Type} [BEq κ] (key : α → κ) (seen : List κ) : List α → List α
  | [] => []
  | a :: rest =>
    if seen.contains (key a) then firstsAfter key seen rest
    else a :: firstsAfter key (key a :: seen) rest

/-- The first of the things with each key, in their order. -/
def firsts {α κ : Type} [BEq κ] (key : α → κ) (list : List α) : List α :=
  firstsAfter key [] list

/-- Things in the order of their keys; those of the same key keep their order. -/
def sort {α : Type} (key : α → List String) (list : List α) : List α :=
  list.mergeSort fun a b => !decide (key b < key a)

end Keyed

end IndexAudit
