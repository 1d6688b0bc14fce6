import IndexAudit.Command.Project
import IndexAudit.Proofs.Keyed
import Mathlib.Data.List.Nodup

/-!
The findings on a project do not depend on the order in which the tasks that analyze it end.

A task that ends takes its findings from what is still running to what has ended, and both
together never change. Sorted by the places of the modules, they are in the order of the modules.
-/

namespace IndexAudit

namespace AnalysisTasks

variable (tree : FileTree) (layout : ModuleLayout) (exclusions : Exclusions)

/-- What has been found, and what will be found by the tasks that still run. -/
def outcomes (tasks : AnalysisTasks) : List (List MissingIndex × Nat) :=
  tasks.ended ++ tasks.running.map (outcome tree layout exclusions)

/-- A task that ends finds what it would find. -/
theorem outcomes_finish (tasks : AnalysisTasks) (place : Nat) :
    (outcomes tree layout exclusions (tasks.finish tree layout exclusions place)).Perm
      (outcomes tree layout exclusions tasks) := by
  -- What the task finds is moved from what runs to what has ended.
  rw [outcomes, finish, outcomes, List.append_assoc, ← List.map_append]
  exact ((List.filter_append_perm (·.2 == place) tasks.running).map _).append_left _

/-- However many tasks end, all of them together find the same. -/
theorem outcomes_run (tasks : AnalysisTasks) (places : List Nat) :
    (outcomes tree layout exclusions (tasks.run tree layout exclusions places)).Perm
      (outcomes tree layout exclusions tasks) := by
  induction places generalizing tasks with
  | nil => exact .refl _
  | cons place rest ih =>
    -- Each task that ends keeps what all find, so by induction any number of them does.
    exact (ih (tasks.finish tree layout exclusions place)).trans
      (outcomes_finish tree layout exclusions tasks place)

/-- What the tasks for a list of modules find is found under the places in that list. -/
theorem outcomes_places (modules : List SourceModule) :
    (modules.zipIdx.map (outcome tree layout exclusions)).map (·.2) =
      List.range modules.length := by
  -- The modules are numbered from zero, and finding keeps the numbers.
  rw [List.map_map, List.range_eq_range']
  exact List.zipIdx_map_snd 0 modules

/-- Once no task runs, sorting by places puts what was found in the order of the modules. -/
theorem ended_sorted {modules : List SourceModule} {places : List Nat}
    (idle : ((start modules).run tree layout exclusions places).running = []) :
    (((start modules).run tree layout exclusions places).ended.mergeSort fun a b => a.2 ≤ b.2) =
      modules.zipIdx.map (outcome tree layout exclusions) := by
  let tasks := (start modules).run tree layout exclusions places
  have same := outcomes_run tree layout exclusions (start modules) places
  rw [outcomes, idle, List.map_nil, List.append_nil] at same
  have perm := (List.mergeSort_perm _ fun a b => decide (a.2 ≤ b.2)).trans same
  -- No place occurs twice, so there is only one way to put them in order.
  have once : ((modules.zipIdx.map (outcome tree layout exclusions)).map (·.2)).Nodup := by
    rw [outcomes_places]
    exact List.nodup_range
  have sorted : (tasks.ended.mergeSort fun a b => a.2 ≤ b.2).Pairwise fun a b => a.2 ≤ b.2 := by
    refine (List.pairwise_mergeSort ?_ ?_ _).imp of_decide_eq_true
    · intro a b c first second
      exact decide_eq_true (Nat.le_trans (of_decide_eq_true first) (of_decide_eq_true second))
    · intro a b
      simpa using Nat.le_total a.2 b.2
  have placed : (modules.zipIdx.map (outcome tree layout exclusions)).Pairwise
      fun a b => a.2 ≤ b.2 := by
    rw [← List.pairwise_map (f := fun found : List MissingIndex × Nat => found.2),
      outcomes_places]
    exact List.pairwise_le_range
  refine List.Perm.eq_of_pairwise ?_ sorted placed perm
  intro a b memberA memberB le ge
  exact List.inj_on_of_nodup_map once (perm.mem_iff.mp memberA) memberB (Nat.le_antisymm le ge)

/-- A task that ends is the only one under its place. -/
theorem ended_finish {tasks : AnalysisTasks} {place : Nat}
    (each : (tasks.running.map (·.2)).Nodup) (known : place ∈ tasks.running.map (·.2)) :
    (tasks.finish tree layout exclusions place).ended.map (·.2) =
      tasks.ended.map (·.2) ++ [place] := by
  have single : (tasks.running.filter (·.2 == place)).map (·.2) = [place] := by
    -- Places do not repeat among the running tasks, so just one of them ends.
    have places : (tasks.running.map (·.2)).filter (· == place) = [place] := by
      rw [List.filter_beq, List.count_eq_one_of_mem each known]
      rfl
    rwa [List.filter_map] at places
  rw [finish, List.map_append, List.map_map]
  exact congrArg (tasks.ended.map (·.2) ++ ·) single

/-- Tasks that are named once each end in that order, and leave the others running. -/
theorem run_places {tasks : AnalysisTasks} {places : List Nat}
    (each : (tasks.running.map (·.2)).Nodup) (once : places.Nodup)
    (known : ∀ place ∈ places, place ∈ tasks.running.map (·.2)) :
    (tasks.run tree layout exclusions places).running =
        tasks.running.filter (fun task => !places.contains task.2) ∧
      (tasks.run tree layout exclusions places).ended.map (·.2) =
        tasks.ended.map (·.2) ++ places := by
  -- By induction on the order: the first task ends, and the others still run, each under a place
  -- of its own.
  induction places generalizing tasks with
  | nil => simp [run]
  | cons place rest ih =>
    obtain ⟨fresh, once⟩ := List.nodup_cons.mp once
    obtain ⟨here, later⟩ := List.forall_mem_cons.mp known
    let next := tasks.finish tree layout exclusions place
    have left : next.running.map (·.2) = (tasks.running.map (·.2)).filter (· != place) := by
      rw [List.filter_map]
      rfl
    have known_next : ∀ other ∈ rest, other ∈ next.running.map (·.2) := by
      intro other member
      have apart : other ≠ place := fun same => fresh (same ▸ member)
      rw [left]
      exact List.mem_filter.mpr ⟨later other member, by simpa using apart⟩
    obtain ⟨running, ended⟩ := ih (left ▸ each.filter _) once known_next
    constructor
    · refine running.trans ?_
      show (tasks.running.filter (·.2 != place)).filter _ = _
      rw [List.filter_filter]
      refine List.filter_congr fun task _ => ?_
      rw [List.contains_cons, Bool.not_or, Bool.and_comm]
      rfl
    · refine ended.trans ?_
      rw [ended_finish tree layout exclusions each here, List.append_assoc]
      rfl

/-- Once no task runs, the findings are those on the modules in their order. -/
theorem findings_run {modules : List SourceModule} {places : List Nat}
    (idle : ((start modules).run tree layout exclusions places).running = []) :
    ((start modules).run tree layout exclusions places).findings =
      SourceModule.analyze tree layout exclusions modules := by
  have found : (modules.zipIdx.map (outcome tree layout exclusions)).map (·.1) =
      modules.map (SourceModule.missingIndexes tree layout exclusions) := by
    conv_rhs => rw [← List.zipIdx_map_fst 0 modules]
    simp only [List.map_map]
    rfl
  -- In the order of their places, the results are those of the modules in their order.
  rw [findings, ended_sorted tree layout exclusions idle, found, SourceModule.analyze]

/-- The tasks can end in every order of their places. -/
theorem run_order {modules : List SourceModule} {places : List Nat}
    (order : places.Perm (List.range modules.length)) :
    ((start modules).run tree layout exclusions places).running = [] ∧
      ((start modules).run tree layout exclusions places).ended.map (·.2) = places := by
  -- At the start each module runs as the task of its own place.
  have places_start : (start modules).running.map (·.2) = List.range modules.length := by
    rw [List.range_eq_range']
    exact List.zipIdx_map_snd 0 modules
  have each : ((start modules).running.map (·.2)).Nodup := by
    rw [places_start]
    exact List.nodup_range
  have known : ∀ place ∈ places, place ∈ (start modules).running.map (·.2) := by
    rw [places_start]
    exact fun place member => order.mem_iff.mp member
  obtain ⟨running, ended⟩ := run_places tree layout exclusions each
    (order.nodup_iff.mpr List.nodup_range) known
  refine ⟨running.trans (List.filter_eq_nil_iff.mpr ?_), ended⟩
  -- Every place has ended, so no task is left.
  intro task member
  have place : task.2 ∈ places := by
    rw [order.mem_iff, ← places_start]
    exact List.mem_map_of_mem member
  simpa using place

/--
The findings on modules are those on them in their order, in whatever order the tasks end.

The tasks can end in every order. The findings are in the order of their keys; those of one key are
in the order of the modules, and in each module as they were found.
-/
theorem findings_anyOrder (modules : List SourceModule) :
    (∀ places, ((start modules).run tree layout exclusions places).running = [] →
        ((start modules).run tree layout exclusions places).findings =
          SourceModule.analyze tree layout exclusions modules) ∧
      (∀ places, places.Perm (List.range modules.length) →
        ((start modules).run tree layout exclusions places).running = [] ∧
          ((start modules).run tree layout exclusions places).ended.map (·.2) = places) ∧
      Keyed.IsStableSort (·.key.parts)
        (modules.flatMap (SourceModule.missingIndexes tree layout exclusions))
        (SourceModule.analyze tree layout exclusions modules) := by
  -- What is left to show is that merging sorts, and sorting is stable.
  refine ⟨fun places idle => findings_run tree layout exclusions idle,
    fun places order => run_order tree layout exclusions order, ?_⟩
  rw [SourceModule.analyze, MissingIndex.merge, ← List.flatMap_def]
  exact Keyed.sort_isStableSort _ _

/-- A repository that looks orders up by their state, and the entity behind it. -/
def orderSource : String :=
  "interface Orders : JpaRepository<Order, Long> \x7b\n  fun findByState(state: Int): Order\n" ++
    "\x7d\n@Entity @Table(name = \"orders\") class Order(val state: Int)"

/-- The modules of a shop, of which the last two have one name in two spellings. -/
def shopModules : List SourceModule :=
  [⟨"bills", "shop/bills"⟩, ⟨"Orders", "shop/old/Orders"⟩, ⟨"orders", "shop/new/orders"⟩]

/-- A shop with one source in each of its modules, and no index anywhere. -/
def shopTree (source : List Char) : FileTree where
  files := [(["shop", "bills", "src", "Order.kt"], .text source),
    (["shop", "old", "Orders", "src", "Order.kt"], .text source),
    (["shop", "new", "orders", "src", "Order.kt"], .text source)]
  directories := [["shop"], ["shop", "bills"], ["shop", "bills", "src"], ["shop", "old"],
    ["shop", "old", "Orders"], ["shop", "old", "Orders", "src"], ["shop", "new"],
    ["shop", "new", "orders"], ["shop", "new", "orders", "src"]]
  current := []

/-- The layout of the modules of that shop. -/
def shopLayout : ModuleLayout :=
  ⟨["src"], ["src"], []⟩

/-- The finding on a module of that shop. -/
def shopFinding (module : SourceModule) : MissingIndex :=
  ⟨module.name, "orders", "state", "Orders.findByState", module.directory ++ "/src/Order.kt", 2,
    .derived⟩

/-- Where each module of the shop has its finding, they are in the order of their keys. -/
theorem analyze_shop {shop : FileTree}
    (found : shopModules.map (SourceModule.missingIndexes shop shopLayout (.ofNames [] [] [])) =
      shopModules.map fun module => [shopFinding module]) :
    SourceModule.analyze shop shopLayout (.ofNames [] [] []) shopModules =
      shopModules.map shopFinding := by
  -- Taken in the order of the modules they are sorted already.
  have sorted : (shopModules.map shopFinding).Pairwise fun a b => a.key.parts ≤ b.key.parts := by
    decide +kernel
  rw [SourceModule.analyze, found]
  exact Keyed.sort_eq_self _ sorted

/--
The tasks of three modules end from the last to the first. The findings on two of them have one key,
and are in the order of the modules nevertheless.
-/
theorem findings_anyOrder_reversed :
    let tasks := (start shopModules).run (shopTree orderSource.toList) shopLayout
      (.ofNames [] [] []) [2, 1, 0]
    tasks.ended.map (·.2) = [2, 1, 0] ∧ tasks.findings = shopModules.map shopFinding ∧
      tasks.findings.map (·.key.service) = ["bills", "orders", "orders"] := by
  intro tasks
  have each : shopModules.map (SourceModule.missingIndexes (shopTree orderSource.toList)
      shopLayout (.ofNames [] [] [])) = shopModules.map fun module => [shopFinding module] := by
    -- The source is put together as a list: to decode it as a string takes far longer.
    have decoded (front back : List Char) :
        (String.ofList front ++ String.ofList back).toList = front ++ back := by simp
    have source : orderSource.toList = _ := decoded _ _
    rw [source]
    decide +kernel
  obtain ⟨findings, orders, -⟩ := findings_anyOrder (shopTree orderSource.toList) shopLayout
    (.ofNames [] [] []) shopModules
  obtain ⟨idle, ended⟩ := orders [2, 1, 0] (by decide)
  have found := (findings [2, 1, 0] idle).trans (analyze_shop each)
  exact ⟨ended, found, found ▸ by decide +kernel⟩

end AnalysisTasks

/-- The findings on a project are those on its modules in their order. -/
theorem Project.analyze_eq (tree : FileTree) (settings : Settings) (root : String) :
    analyze tree settings root = (modules tree settings root).map fun found =>
      (found.length, SourceModule.analyze tree settings.layout settings.exclusions found) := by
  cases discovered : modules tree settings root with
  | error error => simp [analyze, discovered, Bind.bind, Except.bind, Except.map]
  | ok found =>
    -- One order in which all tasks end is as good as any.
    have idle := (AnalysisTasks.run_order tree settings.layout settings.exclusions
      (.refl (List.range found.length))).1
    simp [analyze, discovered, AnalysisTasks.findings_run _ _ _ idle, Bind.bind, Except.bind,
      Except.map, Pure.pure, Except.pure]

end IndexAudit
