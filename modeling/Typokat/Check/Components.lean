import Typokat.Lib.Digraph
import Std.Data.TreeMap.Lemmas
import Std.Data.TreeSet.Lemmas
import Mathlib.Data.Prod.Lex
import Mathlib.Algebra.Order.BigOperators.Group.List
import Mathlib.Algebra.Order.Ring.Nat
import Mathlib.Order.Compare

/-!
# Dependency-First Components

The strongly connected components of a dependency map, in the order in which the checker
works through them: two depth-first sweeps cut the map into components, and a third loop
takes the components whose dependencies are all out, always the one with the least node.

## Main Results

- `dependencyFirstSccs_canonical` : the components come in the canonical order of the graph
- `dependencyFirstSccs_spec` : every key and target once, components are classes of mutual
  reachability, dependencies come first
-/

namespace Typokat.Check

open Lib Std.TreeSet List Relation

universe u

/-- A dependency map: the keys in order, each with its ordered set of dependencies. -/
abbrev DependencyGraph (Node : Type u) [LinearOrder Node] :=
  Std.TreeMap Node (Std.TreeSet Node)

variable {Node : Type u} [LinearOrder Node] {set : Std.TreeSet Node}

theorem mem_insert_iff {entry node : Node} :
    node ∈ set.insert entry ↔ node = entry ∨ node ∈ set := by
  rw [mem_insert, Std.LawfulEqCmp.compare_eq_iff_eq]
  exact or_congr eq_comm Iff.rfl

theorem mem_erase_iff {entry node : Node} :
    node ∈ set.erase entry ↔ node ≠ entry ∧ node ∈ set := by
  rw [mem_erase, ne_eq, Std.LawfulEqCmp.compare_eq_iff_eq]
  exact and_congr (not_congr eq_comm) Iff.rfl

/-- The iteration over an ordered set starts with its least entry. -/
theorem head?_toList_spec {entry : Node} (h : set.toList.head? = some entry) :
    entry ∈ set ∧ ∀ other ∈ set, entry ≤ other := by
  have hordered := ordered_toList (t := set)
  cases hlist : set.toList with
  | nil =>
    rw [hlist] at h
    cases h
  | cons first rest =>
    rw [hlist] at h hordered
    cases h
    have hmem : ∀ other, other ∈ set ↔ other = entry ∨ other ∈ rest := by
      intro other
      rw [← mem_toList, hlist, mem_cons]
    refine ⟨(hmem entry).mpr (.inl rfl), fun other hother => ?_⟩
    rcases (hmem other).mp hother with rfl | hother
    · exact le_rfl
    · exact le_of_lt (compare_lt_iff_lt.mp ((pairwise_cons.mp hordered).1 other hother))

theorem not_mem_of_head?_toList (h : set.toList.head? = none) (entry : Node) : entry ∉ set := by
  rw [← mem_toList, head?_eq_none_iff.mp h]
  exact not_mem_nil

/-- Erasing the one entry of an index from a set in which every index has one key. -/
theorem exists_mem_erase_iff {K : Type u} {J : Type} [LinearOrder K] [LinearOrder J]
    {set : Std.TreeSet (K ×ₗ J)} {keyOf : J → Option K}
    (hkeyed : ∀ key index, toLex (key, index) ∈ set → keyOf index = some key) {key : K} {index : J}
    (hmem : toLex (key, index) ∈ set) (other : J) :
    (∃ first, toLex (first, other) ∈ set.erase (toLex (key, index))) ↔
      (∃ first, toLex (first, other) ∈ set) ∧ other ≠ index := by
  simp only [mem_erase_iff, ne_eq, EmbeddingLike.apply_eq_iff_eq, Prod.mk.injEq]
  constructor
  · rintro ⟨first, hne, hin⟩
    refine ⟨⟨first, hin⟩, ?_⟩
    rintro rfl
    exact hne ⟨Option.some.inj ((hkeyed first other hin).symm.trans (hkeyed key other hmem)), rfl⟩
  · rintro ⟨⟨first, hin⟩, hne⟩
    exact ⟨first, fun heq => hne heq.2, hin⟩

namespace DependencyGraph

variable (graph : DependencyGraph Node)

/-- The dependencies of a node in order; none for a node that is not a key. -/
def targets (node : Node) : List Node :=
  match graph[node]? with
  | some dependencies => dependencies.toList
  | none => []

/-- The dependencies of a node that were not seen yet, in order. -/
def unseen (seen : Std.TreeSet Node) (node : Node) : List Node :=
  (graph.targets node).filter (fun target => target ∉ seen)

/-- The entries of the keys that were not visited yet, counted with their dependencies. -/
def unvisited (seen : Std.TreeSet Node) : Nat :=
  ((graph.toList.filter (fun row => row.1 ∉ seen)).map (fun row => 2 * row.2.size)).sum

theorem mem_targets {graph : DependencyGraph Node} {node target : Node} :
    target ∈ graph.targets node ↔ ∃ dependencies, graph[node]? = some dependencies ∧
      target ∈ dependencies := by
  unfold targets
  split
  · rename_i dependencies hget
    rw [mem_toList, hget]
    constructor
    · exact fun hmem => ⟨dependencies, rfl, hmem⟩
    · rintro ⟨_, heq, hmem⟩
      cases heq
      exact hmem
  · rename_i hget
    rw [hget]
    simp

theorem mem_getD {graph : DependencyGraph Node} {node target : Node} :
    target ∈ graph.getD node ∅ ↔ target ∈ graph.targets node := by
  rw [mem_targets, Std.TreeMap.getD_eq_getD_getElem?]
  cases graph[node]? with
  | none => simp
  | some dependencies => simp

/-- Removing one more entry from a filtered list lowers a sum by the entry's weight. -/
theorem sum_filter_add_le {β : Type u} (weight : β → Nat) (large small : β → Bool) (row : β) :
    ∀ rows : List β, (∀ other, small other = true → large other = true) → row ∈ rows →
      large row = true → small row = false →
      ((rows.filter small).map weight).sum + weight row ≤ ((rows.filter large).map weight).sum
  | [], _, hmem, _, _ => absurd hmem not_mem_nil
  | first :: rows, hsub, hmem, hlarge, hsmall => by
    have hrest : ((rows.filter small).map weight).sum ≤ ((rows.filter large).map weight).sum :=
      ((monotone_filter_right rows hsub).map weight).sum_le_sum (by simp)
    rcases mem_cons.mp hmem with rfl | hmem
    · rw [filter_cons_of_neg (by simp [hsmall]), filter_cons_of_pos hlarge, map_cons, sum_cons]
      omega
    · have ih := sum_filter_add_le weight large small row rows hsub hmem hlarge hsmall
      by_cases hfirst : small first = true
      · rw [filter_cons_of_pos hfirst, filter_cons_of_pos (hsub first hfirst),
          map_cons, map_cons, sum_cons, sum_cons]
        omega
      · rw [filter_cons_of_neg (by simpa using hfirst)]
        by_cases hfirst' : large first = true
        · rw [filter_cons_of_pos hfirst', map_cons, sum_cons]
          omega
        · rw [filter_cons_of_neg (by simpa using hfirst')]
          exact ih

/-- Visiting a node pays for its dependencies. -/
theorem unvisited_insert {seen : Std.TreeSet Node} {node : Node} (hunseen : node ∉ seen) :
    graph.unvisited (seen.insert node) + 2 * (graph.unseen (seen.insert node) node).length
      ≤ graph.unvisited seen := by
  have hfilter : (graph.unseen (seen.insert node) node).length ≤ (graph.targets node).length :=
    length_filter_le _ _
  suffices htargets : graph.unvisited (seen.insert node) + 2 * (graph.targets node).length
      ≤ graph.unvisited seen by omega
  have hsub : ∀ row : Node × Std.TreeSet Node, decide (row.1 ∉ seen.insert node) = true →
      decide (row.1 ∉ seen) = true := by
    intro row hrow
    simp only [decide_eq_true_eq, mem_insert, not_or] at hrow ⊢
    exact hrow.2
  unfold unvisited targets
  split
  · rename_i dependencies hget
    rw [length_toList]
    exact sum_filter_add_le (fun row : Node × Std.TreeSet Node => 2 * row.2.size) _ _
      (node, dependencies) graph.toList hsub
      (Std.TreeMap.mem_toList_iff_getElem?_eq_some.mpr hget) (by simpa using hunseen)
      (by simp)
  · simp only [length_nil, Nat.mul_zero, Nat.add_zero]
    exact ((monotone_filter_right graph.toList hsub).map _).sum_le_sum (by simp)

end DependencyGraph

/-! ## §1 The loops -/

/-- The first sweep from one start.  An entry `(node, true)` is the marker under which the
dependencies of `node` are visited; `order` holds the finished nodes, the last one first. -/
def finishFrom (graph : DependencyGraph Node) (stack : List (Node × Bool)) (seen : Std.TreeSet Node)
    (order : List Node) : Std.TreeSet Node × List Node :=
  match stack with
  | [] => (seen, order)
  | (node, true) :: stack => finishFrom graph stack seen (node :: order)
  | (node, false) :: stack =>
    if node ∈ seen then finishFrom graph stack seen order
    else
      -- pushed from the largest on, so that the least dependency is on top
      finishFrom graph
        ((graph.unseen (seen.insert node) node).map (·, false) ++ (node, true) :: stack)
        (seen.insert node) order
termination_by graph.unvisited seen + (stack.map (fun entry => if entry.2 then 1 else 2)).sum
decreasing_by
  · simp
  · simp
  · have hpaid := graph.unvisited_insert (by assumption : node ∉ seen)
    simp [Function.comp_def]
    omega

/-- The first sweep: every key that was not seen yet starts a search. -/
def finishOrder (graph : DependencyGraph Node) : List Node :=
  (graph.keys.foldl (fun (state : Std.TreeSet Node × List Node) start =>
    if start ∈ state.1 then state else finishFrom graph [(start, false)] state.1 state.2)
    (∅, [])).2

/-- The map of dependents: every key, and every target with the keys that depend on it. -/
def reverseGraph (graph : DependencyGraph Node) : DependencyGraph Node :=
  graph.foldl (fun reverse node dependencies =>
    dependencies.foldl (fun reverse dependency =>
      reverse.insert dependency ((reverse.getD dependency ∅).insert node)) reverse)
    (graph.map (fun _ _ => ∅))

/-- The second sweep from one node: collect what reaches it and was not collected before. -/
def collectFrom (reverse : DependencyGraph Node) (stack : List Node) (seen : Std.TreeSet Node)
    (component : List Node) : Std.TreeSet Node × List Node :=
  match stack with
  | [] => (seen, component)
  | candidate :: stack =>
    if candidate ∈ seen then collectFrom reverse stack seen component
    else
      collectFrom reverse (reverse.unseen (seen.insert candidate) candidate ++ stack)
        (seen.insert candidate) (component ++ [candidate])
termination_by reverse.unvisited seen + stack.length
decreasing_by
  · simp
  · have hpaid := reverse.unvisited_insert (by assumption : candidate ∉ seen)
    simp
    omega

/-- The second sweep: the components, in the order in which they are cut off. -/
def collectComponents (reverse : DependencyGraph Node) (order : List Node) : List (List Node) :=
  (order.foldl (fun (state : Std.TreeSet Node × List (List Node)) node =>
    if node ∈ state.1 then state
    else
      let swept := collectFrom reverse [node] state.1 []
      (swept.1, state.2 ++ [swept.2.insertionSort (· ≤ ·)]))
    (∅, [])).2

/-- The position of the component of every node. -/
def componentOf (components : List (List Node)) : Std.TreeMap Node Nat :=
  components.zipIdx.foldl (fun positions entry =>
    entry.1.foldl (fun positions node => positions.insert node entry.2) positions) ∅

/-- The edges between different components, from both ends. -/
structure Condensation where
  dependencies : List (Std.TreeSet Nat)
  dependents : List (Std.TreeSet Nat)

/-- Record that one component depends on another. -/
def Condensation.link (edges : Condensation) (component target : Nat) : Condensation :=
  if component = target then edges
  else
    { dependencies := edges.dependencies.modify component (·.insert target)
      dependents := edges.dependents.modify target (·.insert component) }

/-- Record one dependency of a node of the component. -/
def linkDependency (positions : Std.TreeMap Node Nat) (component : Nat) (edges : Condensation)
    (dependency : Node) : Condensation :=
  match positions[dependency]? with
  | some target => edges.link component target
  | none => edges

/-- No edges yet between the given number of components. -/
def Condensation.unlinked (count : Nat) : Condensation where
  dependencies := List.replicate count ∅
  dependents := List.replicate count ∅

/-- The condensation of the graph on the given components. -/
def condense (graph : DependencyGraph Node) (components : List (List Node)) : Condensation :=
  let positions := componentOf components
  positions.foldl (fun edges node component =>
    (graph.targets node).foldl (linkDependency positions component) edges)
    (Condensation.unlinked components.length)

/-- Components wait in the order of their least nodes. -/
abbrev ReadySet (Node : Type u) [LinearOrder Node] := Std.TreeSet (Node ×ₗ Nat)

/-- `ready.insert((components[index][0], index))`; a component always has a node. -/
def insertReady (components : List (List Node)) (ready : ReadySet Node) (index : Nat) :
    ReadySet Node :=
  match (components.getD index []).head? with
  | some key => ready.insert (toLex (key, index))
  | none => ready

/-- Drop the emitted component from the dependencies of a dependent. -/
def release (components : List (List Node)) (emitted : Nat)
    (state : List (Std.TreeSet Nat) × ReadySet Node) (dependent : Nat) :
    List (Std.TreeSet Nat) × ReadySet Node :=
  let dependencies := state.1.modify dependent (·.erase emitted)
  (dependencies,
    if (dependencies.getD dependent ∅).isEmpty then insertReady components state.2 dependent
    else state.2)

/-- The third loop: positions of components in dependency order, `none` when the fuel does
not cover the components that are ready. -/
def emitReady (components : List (List Node)) (dependents : List (Std.TreeSet Nat)) :
    Nat → List (Std.TreeSet Nat) → ReadySet Node → Option (List Nat)
  | fuel, dependencies, ready =>
    match ready.toList.head? with
    | none => some []
    | some entry =>
      match fuel with
      | 0 => none
      | fuel + 1 =>
        let index := (ofLex entry).2
        let state := (dependents.getD index ∅).foldl (release components index)
          (dependencies, ready.erase entry)
        (emitReady components dependents fuel state.1 state.2).map (index :: ·)

/-- `dependency_first_sccs`: the strongly connected components, dependencies first. -/
def dependencyFirstSccs (graph : DependencyGraph Node) : List (List Node) :=
  let components := collectComponents (reverseGraph graph) (finishOrder graph)
  let edges := condense graph components
  let ready := (List.range components.length).foldl (fun ready index =>
    if (edges.dependencies.getD index ∅).isEmpty then insertReady components ready index
    else ready) ∅
  let sorted := emitReady components edges.dependents components.length edges.dependencies ready
  (sorted.getD []).map (fun index => components.getD index [])

/-! ## §2 Edges and nodes -/

namespace DependencyGraph

/-- One node lists another among its dependencies. -/
def Edge (graph : DependencyGraph Node) (node target : Node) : Prop :=
  target ∈ graph.targets node

/-- The nodes of the graph are its keys and the targets of its keys. -/
def IsNode (graph : DependencyGraph Node) (node : Node) : Prop :=
  node ∈ graph ∨ ∃ key, graph.Edge key node

variable {graph : DependencyGraph Node} {node target : Node}

theorem Edge.isNode_source (h : graph.Edge node target) :
    graph.IsNode node := by
  obtain ⟨dependencies, hget, _⟩ := mem_targets.mp h
  refine .inl ?_
  rw [Std.TreeMap.mem_iff_isSome_getElem?, hget]
  rfl

theorem Edge.isNode_target (h : graph.Edge node target) :
    graph.IsNode target :=
  .inr ⟨node, h⟩

/-- What reaches a node of the graph is a node of the graph. -/
theorem isNode_of_reach (h : ReflTransGen graph.Edge node target) (htarget : graph.IsNode target) :
    graph.IsNode node := by
  rcases ReflTransGen.cases_head h with rfl | ⟨_, hedge, _⟩
  · exact htarget
  · exact hedge.isNode_source

theorem mem_unseen {seen : Std.TreeSet Node} :
    target ∈ graph.unseen seen node ↔ graph.Edge node target ∧ target ∉ seen := by
  simp [unseen, Edge]

end DependencyGraph

/-! ## §3 The first sweep -/

section FirstSweep

variable {graph : DependencyGraph Node}

section Finishing

variable (stack : List (Node × Bool)) (seen : Std.TreeSet Node) (order : List Node)
include stack seen order

/-- The search from one stack ends with an empty stack and keeps the invariant. -/
theorem markerStack_finishFrom (h : MarkerStack graph.Edge stack (· ∈ seen) order) :
    MarkerStack graph.Edge [] (· ∈ (finishFrom graph stack seen order).1)
      (finishFrom graph stack seen order).2 := by
  fun_induction finishFrom graph stack seen order with
  | case1 seen order => exact h
  | case2 seen order node stack ih => exact ih h.popMarker
  | case3 seen order node stack hseen ih => exact ih (h.popSeen hseen)
  | case4 seen order node stack hunseen ih =>
    refine ih (h.expand hunseen ?_ ?_ ?_)
    · exact fun other => mem_insert_iff
    · exact fun target htarget => (DependencyGraph.mem_unseen.mp htarget).1
    · intro target hedge
      by_cases hin : target ∈ seen.insert node
      · exact .inl hin
      · exact .inr (DependencyGraph.mem_unseen.mpr ⟨hedge, hin⟩)

/-- What was seen or waits is seen in the end. -/
theorem seen_finishFrom (node : Node) (h : node ∈ seen ∨ (node, false) ∈ stack) :
    node ∈ (finishFrom graph stack seen order).1 := by
  fun_induction finishFrom graph stack seen order with
  | case1 seen order => simpa using h
  | case2 seen order first stack ih => exact ih (by simpa using h)
  | case3 seen order first stack hseen ih =>
    refine ih ?_
    rcases h with h | h
    · exact .inl h
    · rcases mem_cons.mp h with heq | h
      · cases heq
        exact .inl hseen
      · exact .inr h
  | case4 seen order first stack hunseen ih =>
    refine ih ?_
    rcases h with h | h
    · exact .inl (mem_insert.mpr (.inr h))
    · rcases mem_cons.mp h with heq | h
      · cases heq
        exact .inl mem_insert_self
      · exact .inr (mem_append_right _ (mem_cons_of_mem _ h))

/-- Only nodes of the graph are put into the order. -/
theorem isNode_finishFrom (hstack : ∀ entry ∈ stack, graph.IsNode entry.1)
    (horder : ∀ node ∈ order, graph.IsNode node) :
    ∀ node ∈ (finishFrom graph stack seen order).2, graph.IsNode node := by
  fun_induction finishFrom graph stack seen order with
  | case1 seen order => exact horder
  | case2 seen order first stack ih =>
    obtain ⟨hfirst, hrest⟩ := forall_mem_cons.mp hstack
    exact ih hrest (forall_mem_cons.mpr ⟨hfirst, horder⟩)
  | case3 seen order first stack hseen ih =>
    exact ih (forall_mem_cons.mp hstack).2 horder
  | case4 seen order first stack hunseen ih =>
    refine ih ?_ horder
    obtain ⟨hfirst, hrest⟩ := forall_mem_cons.mp hstack
    refine forall_mem_append.mpr ⟨?_, forall_mem_cons.mpr ⟨hfirst, hrest⟩⟩
    intro entry hentry
    obtain ⟨target, htarget, rfl⟩ := mem_map.mp hentry
    exact (DependencyGraph.mem_unseen.mp htarget).1.isNode_target

end Finishing

/-- The loop over the starts. -/
theorem finishOrder_starts (starts : List Node) (hstarts : ∀ start ∈ starts, start ∈ graph)
    (state : Std.TreeSet Node × List Node)
    (h : MarkerStack graph.Edge [] (· ∈ state.1) state.2)
    (hnodes : ∀ node ∈ state.2, graph.IsNode node) :
    ∃ final : Std.TreeSet Node × List Node,
      starts.foldl (fun (state : Std.TreeSet Node × List Node) start =>
        if start ∈ state.1 then state else finishFrom graph [(start, false)] state.1 state.2)
        state = final ∧
      MarkerStack graph.Edge [] (· ∈ final.1) final.2 ∧
      (∀ node ∈ final.2, graph.IsNode node) ∧
      ∀ node, node ∈ state.1 ∨ node ∈ starts → node ∈ final.1 := by
  induction starts generalizing state with
  | nil => exact ⟨state, rfl, h, hnodes, fun node hnode => by simpa using hnode⟩
  | cons start starts ih =>
    obtain ⟨hstart, hrest⟩ := forall_mem_cons.mp hstarts
    rw [foldl_cons]
    by_cases hseen : start ∈ state.1
    · rw [if_pos hseen]
      obtain ⟨final, heq, hfinal, hnodes', hgrown⟩ := ih hrest state h hnodes
      refine ⟨final, heq, hfinal, hnodes', ?_⟩
      rintro node (hnode | hnode)
      · exact hgrown node (.inl hnode)
      · rcases mem_cons.mp hnode with rfl | hnode
        · exact hgrown node (.inl hseen)
        · exact hgrown node (.inr hnode)
    · rw [if_neg hseen]
      have hstack : ∀ entry ∈ [(start, false)], graph.IsNode entry.1 := by
        intro entry hentry
        rw [mem_singleton.mp hentry]
        exact .inl hstart
      obtain ⟨final, heq, hfinal, hnodes', hgrown⟩ := ih hrest
        (finishFrom graph [(start, false)] state.1 state.2)
        (markerStack_finishFrom _ _ _ (h.start start))
        (isNode_finishFrom _ _ _ hstack hnodes)
      refine ⟨final, heq, hfinal, hnodes', ?_⟩
      rintro node (hnode | hnode)
      · exact hgrown node (.inl (seen_finishFrom _ _ _ node (.inl hnode)))
      · rcases mem_cons.mp hnode with rfl | hnode
        · exact hgrown node (.inl (seen_finishFrom _ _ _ node (.inr mem_cons_self)))
        · exact hgrown node (.inr hnode)

/-- **The first sweep**: every node of the graph once, in a finishing order. -/
theorem finishOrder_spec (graph : DependencyGraph Node) :
    FinishOrder graph.Edge (finishOrder graph) ∧
      ∀ node, node ∈ finishOrder graph ↔ graph.IsNode node := by
  have hempty : MarkerStack graph.Edge [] (· ∈ (∅ : Std.TreeSet Node)) [] := by
    have hnone : (fun node : Node => node ∈ (∅ : Std.TreeSet Node)) = fun _ => False := by
      funext node
      exact eq_false not_mem_emptyc
    rw [hnone]
    exact MarkerStack.empty
  obtain ⟨final, heq, hfinal, hnodes, hgrown⟩ := finishOrder_starts graph.keys
    (fun start hstart => Std.TreeMap.mem_keys.mp hstart) (∅, []) hempty (by simp)
  have horder : finishOrder graph = final.2 := by
    rw [← heq]
    rfl
  have hseen : ∀ node, node ∈ final.1 ↔ node ∈ final.2 := by
    intro node
    simpa using hfinal.seen_iff node
  rw [horder]
  refine ⟨hfinal.finish, fun node => ⟨hnodes node, ?_⟩⟩
  have hkeys : ∀ key, key ∈ graph → key ∈ final.2 := fun key hkey =>
    (hseen key).mp (hgrown key (.inr (Std.TreeMap.mem_keys.mpr hkey)))
  rintro (hnode | ⟨key, hedge⟩)
  · exact hkeys node hnode
  · obtain ⟨_, hget, _⟩ := DependencyGraph.mem_targets.mp hedge
    have hkey : key ∈ graph := by
      rw [Std.TreeMap.mem_iff_isSome_getElem?, hget]
      rfl
    exact (hseen node).mp (hfinal.closed key (hkeys key hkey) node hedge)

end FirstSweep

/-! ## §4 The reversed graph -/

section Reverse

variable {graph : DependencyGraph Node}

theorem mem_targets_insert {reverse : DependencyGraph Node} {dependency node source target : Node} :
    target ∈ DependencyGraph.targets
        (reverse.insert dependency ((reverse.getD dependency ∅).insert node)) source ↔
      target ∈ reverse.targets source ∨ (source = dependency ∧ target = node) := by
  rw [DependencyGraph.mem_targets, Std.TreeMap.getElem?_insert]
  by_cases heq : dependency = source
  · subst heq
    simp only [Std.ReflCmp.compare_self, if_true, Option.some.injEq, exists_eq_left', true_and]
    rw [mem_insert_iff, DependencyGraph.mem_getD, or_comm]
  · have hne : compare dependency source ≠ .eq := by
      rw [ne_eq, Std.LawfulEqCmp.compare_eq_iff_eq]
      exact heq
    have hne' : source ≠ dependency := fun h => heq h.symm
    simp only [hne, if_false, hne', false_and, or_false]
    exact DependencyGraph.mem_targets.symm

/-- The reversed graph has the edges of the graph the other way round. -/
theorem edge_reverseGraph {source target : Node} :
    (reverseGraph graph).Edge source target ↔ graph.Edge target source := by
  unfold DependencyGraph.Edge reverseGraph
  rw [Std.TreeMap.foldl_eq_foldl_toList]
  simp only [foldl_eq_foldl_toList]
  have hinner : ∀ (row : Node × Std.TreeSet Node) (reverse : DependencyGraph Node),
      target ∈ DependencyGraph.targets (row.2.toList.foldl (fun reverse dependency =>
        reverse.insert dependency ((reverse.getD dependency ∅).insert row.1)) reverse) source ↔
      target ∈ reverse.targets source ∨ (source ∈ row.2.toList ∧ target = row.1) := by
    intro row reverse
    rw [(foldl_collects (fun _ => True)
      (fun reverse : DependencyGraph Node => target ∈ reverse.targets source)
      (fun dependency => source = dependency ∧ target = row.1) row.2.toList reverse trivial
      (fun dependency _ reverse _ => ⟨trivial, mem_targets_insert⟩)).2]
    simp
  rw [(foldl_collects (fun _ => True)
    (fun reverse : DependencyGraph Node => target ∈ reverse.targets source)
    (fun row => source ∈ row.2.toList ∧ target = row.1) graph.toList _ trivial
    (fun row _ reverse _ => ⟨trivial, hinner row reverse⟩)).2]
  have hstart : target ∉ DependencyGraph.targets
      (graph.map (fun _ _ => (∅ : Std.TreeSet Node))) source := by
    rw [DependencyGraph.mem_targets]
    rintro ⟨dependencies, hget, hmem⟩
    rw [Std.TreeMap.getElem?_map] at hget
    cases hrow : graph[source]? with
    | none => simp [hrow] at hget
    | some row =>
      rw [hrow] at hget
      cases hget
      exact not_mem_emptyc hmem
  simp only [hstart, false_or, DependencyGraph.mem_targets]
  constructor
  · rintro ⟨row, hrow, hmem, rfl⟩
    exact ⟨row.2, Std.TreeMap.mem_toList_iff_getElem?_eq_some.mp hrow,
      mem_toList.mp hmem⟩
  · rintro ⟨dependencies, hget, hmem⟩
    exact ⟨(target, dependencies), Std.TreeMap.mem_toList_iff_getElem?_eq_some.mpr hget,
      mem_toList.mpr hmem, rfl⟩

theorem reach_reverseGraph {source target : Node} :
    ReflTransGen (reverseGraph graph).Edge source target ↔
      ReflTransGen graph.Edge target source := by
  rw [← reflTransGen_swap]
  have hswap : (reverseGraph graph).Edge = Function.swap graph.Edge := by
    funext a b
    exact propext edge_reverseGraph
  rw [hswap]

end Reverse

/-! ## §5 The second sweep -/

section SecondSweep

variable {graph : DependencyGraph Node}

/-- One collection: the new nodes were not seen before, are reached from the stack, and
lead only to nodes that are seen now. -/
structure Collected (reverse : DependencyGraph Node) (stack : List Node)
    (seen : Std.TreeSet Node) (fresh : List Node) (final : Std.TreeSet Node) : Prop where
  nodup : fresh.Nodup
  unseen : ∀ node ∈ fresh, node ∉ seen
  seen_iff : ∀ node, node ∈ final ↔ node ∈ seen ∨ node ∈ fresh
  stack_seen : ∀ node ∈ stack, node ∈ final
  reached : ∀ node ∈ fresh, ∃ start ∈ stack, Relation.ReflTransGen reverse.Edge start node
  closed : ∀ node ∈ fresh, ∀ target, reverse.Edge node target → target ∈ final

theorem collected_collectFrom (reverse : DependencyGraph Node) (stack : List Node)
    (seen : Std.TreeSet Node)
    (component : List Node) :
    ∃ fresh, (collectFrom reverse stack seen component).2 = component ++ fresh ∧
      Collected reverse stack seen fresh (collectFrom reverse stack seen component).1 := by
  fun_induction collectFrom reverse stack seen component with
  | case1 seen component =>
    exact ⟨[], (append_nil _).symm, by simp, by simp, by simp, by simp, by simp, by simp⟩
  | case2 seen component candidate stack hseen ih =>
    obtain ⟨fresh, heq, h⟩ := ih
    refine ⟨fresh, heq, h.nodup, h.unseen, h.seen_iff, ?_, ?_, h.closed⟩
    · exact forall_mem_cons.mpr ⟨(h.seen_iff candidate).mpr (.inl hseen), h.stack_seen⟩
    · intro node hnode
      obtain ⟨start, hstart, hpath⟩ := h.reached node hnode
      exact ⟨start, mem_cons_of_mem _ hstart, hpath⟩
  | case3 seen component candidate stack hunseen ih =>
    obtain ⟨fresh, heq, h⟩ := ih
    have hcandidate := (h.seen_iff candidate).mpr (.inl mem_insert_self)
    refine ⟨candidate :: fresh, by rw [heq, append_assoc]; rfl, ?_, ?_, ?_, ?_, ?_, ?_⟩
    · refine nodup_cons.mpr ⟨fun hin => ?_, h.nodup⟩
      exact h.unseen candidate hin mem_insert_self
    · refine forall_mem_cons.mpr ⟨hunseen, fun node hnode hin => ?_⟩
      exact h.unseen node hnode (mem_insert_iff.mpr (.inr hin))
    · intro node
      rw [h.seen_iff node, mem_insert_iff, mem_cons]
      tauto
    · refine forall_mem_cons.mpr ⟨hcandidate, fun node hnode => ?_⟩
      exact h.stack_seen node (mem_append_right _ hnode)
    · refine forall_mem_cons.mpr ⟨⟨candidate, mem_cons_self, .refl⟩, ?_⟩
      intro node hnode
      obtain ⟨start, hstart, hpath⟩ := h.reached node hnode
      rcases mem_append.mp hstart with hstart | hstart
      · exact ⟨candidate, mem_cons_self,
          .head (DependencyGraph.mem_unseen.mp hstart).1 hpath⟩
      · exact ⟨start, mem_cons_of_mem _ hstart, hpath⟩
    · refine forall_mem_cons.mpr ⟨fun target hedge => ?_, h.closed⟩
      by_cases hin : target ∈ seen.insert candidate
      · exact (h.seen_iff target).mpr (.inl hin)
      · exact h.stack_seen target (mem_append_left _
          (DependencyGraph.mem_unseen.mpr ⟨hedge, hin⟩))

/-- The components that were cut off so far. -/
structure Swept (graph : DependencyGraph Node) (later : List Node) (seen : Std.TreeSet Node)
    (components : List (List Node)) : Prop where
  seen_iff : ∀ node, node ∈ seen ↔ node ∈ components.flatten
  later_seen : ∀ node ∈ later, node ∈ seen
  isNode : ∀ node ∈ components.flatten, graph.IsNode node
  nodup : components.flatten.Nodup
  nonempty : ∀ component ∈ components, component ≠ []
  sorted : ∀ component ∈ components, component.Pairwise (· < ·)
  members : ∀ component ∈ components, ∀ node ∈ component, ∀ other,
    other ∈ component ↔ Mutual graph.Edge node other

namespace Swept

variable {later : List Node} {seen : Std.TreeSet Node} {components : List (List Node)}

/-- What was swept is a union of components. -/
theorem mutual_closed (h : Swept graph later seen components) {node other : Node}
    (hseen : node ∈ seen) (hmutual : Mutual graph.Edge node other) : other ∈ seen := by
  obtain ⟨component, hmem, hin⟩ := mem_flatten.mp ((h.seen_iff node).mp hseen)
  exact (h.seen_iff other).mpr (mem_flatten.mpr
    ⟨component, hmem, (h.members component hmem node hin other).mpr hmutual⟩)

section Fresh

variable (h : Swept graph later seen components) {node : Node} {earlier : List Node}
  (horder : FinishOrder graph.Edge (finishOrder graph))
  (hall : ∀ node, node ∈ finishOrder graph ↔ graph.IsNode node)
  (hsplit : finishOrder graph = later ++ node :: earlier) (hunseen : node ∉ seen)
  {fresh : List Node} {final : Std.TreeSet Node}
  (hfresh : Collected (reverseGraph graph) [node] seen fresh final)
include h horder hall hsplit hunseen hfresh

/-- The collection from the next node of the finishing order is its component. -/
theorem mem_fresh (other : Node) :
    other ∈ fresh ↔ Mutual graph.Edge node other := by
  constructor
  · intro hmem
    obtain ⟨start, hstart, hpath⟩ := hfresh.reached other hmem
    rw [mem_singleton.mp hstart] at hpath
    refine (FinishOrder.mutual horder hsplit (fun a b hpath hin => ?_) (fun a b => ?_)
      h.later_seen (hfresh.unseen other hmem) (reach_reverseGraph.mp hpath)).symm
    · exact (hall a).mpr (DependencyGraph.isNode_of_reach hpath ((hall b).mp hin))
    · exact h.mutual_closed
  · rintro ⟨hforth, hback⟩
    -- along the reversed path every node is in the component, so none was seen before
    have hout : ∀ twin, Mutual graph.Edge node twin → twin ∉ seen := fun twin htwin hin =>
      hunseen (h.mutual_closed hin htwin.symm)
    have hin : ∀ twin, twin ∈ final → Mutual graph.Edge node twin → twin ∈ fresh :=
      fun twin htwin hmutual =>
        ((hfresh.seen_iff twin).mp htwin).resolve_left (hout twin hmutual)
    induction hback using ReflTransGen.head_induction_on with
    | refl => exact hin node (hfresh.stack_seen node mem_cons_self) (Mutual.refl node)
    | @head first second hedge hrest ih =>
      have hsecond : second ∈ fresh := ih (hforth.tail hedge)
      have hfirst : first ∈ final := hfresh.closed second hsecond first
        (edge_reverseGraph.mpr hedge)
      exact hin first hfirst ⟨hforth, .head hedge hrest⟩

/-- Cutting off the component of the next node. -/
theorem collect :
    Swept graph (later ++ [node]) final (components ++ [fresh.insertionSort (· ≤ ·)]) := by
  have hmutual := h.mem_fresh horder hall hsplit hunseen hfresh
  have hnode : graph.IsNode node := (hall node).mp (by
    rw [hsplit]
    exact mem_append_right _ mem_cons_self)
  have hfinal : ∀ other, other ∈ final ↔ other ∈ components.flatten ∨ other ∈ fresh := by
    intro other
    rw [hfresh.seen_iff other, h.seen_iff other]
  have hflat : (components ++ [fresh.insertionSort (· ≤ ·)]).flatten =
      components.flatten ++ fresh.insertionSort (· ≤ ·) := by
    simp
  have hsort : ∀ other, other ∈ fresh.insertionSort (· ≤ ·) ↔ other ∈ fresh := fun other =>
    mem_insertionSort _
  have hnodup : (fresh.insertionSort (· ≤ ·)).Nodup :=
    (perm_insertionSort _ fresh).nodup_iff.mpr hfresh.nodup
  refine ⟨?_, ?_, ?_, ?_, ?_, ?_, ?_⟩
  · intro other
    rw [hfinal, hflat, mem_append, hsort]
  · refine forall_mem_append.mpr ⟨fun other hother => ?_, fun other hother => ?_⟩
    · exact (hfresh.seen_iff other).mpr (.inl (h.later_seen other hother))
    · exact hfresh.stack_seen other hother
  · rw [hflat]
    refine forall_mem_append.mpr ⟨h.isNode, fun other hother => ?_⟩
    exact DependencyGraph.isNode_of_reach ((hmutual other).mp ((hsort other).mp hother)).2 hnode
  · rw [hflat, nodup_append]
    refine ⟨h.nodup, hnodup, ?_⟩
    rintro first hfirst second hsecond rfl
    exact hfresh.unseen first ((hsort first).mp hsecond) ((h.seen_iff first).mpr hfirst)
  · refine forall_mem_append.mpr ⟨h.nonempty, fun component hcomponent => ?_⟩
    rw [mem_singleton.mp hcomponent]
    exact ne_nil_of_mem ((hsort node).mpr ((hmutual node).mpr (Mutual.refl node)))
  · refine forall_mem_append.mpr ⟨h.sorted, fun component hcomponent => ?_⟩
    rw [mem_singleton.mp hcomponent]
    exact ((pairwise_insertionSort (· ≤ ·) fresh).and hnodup).imp
      (fun hpair => lt_of_le_of_ne hpair.1 hpair.2)
  · refine forall_mem_append.mpr ⟨h.members, fun component hcomponent => ?_⟩
    rw [mem_singleton.mp hcomponent]
    intro first hfirst other
    have hnode' := (hmutual first).mp ((hsort first).mp hfirst)
    rw [hsort, hmutual]
    exact ⟨fun hother => hnode'.symm.trans hother, fun hother => hnode'.trans hother⟩

end Fresh

/-- The loop over the rest of the finishing order. -/
theorem rest (horder : FinishOrder graph.Edge (finishOrder graph))
    (hall : ∀ node, node ∈ finishOrder graph ↔ graph.IsNode node) :
    ∀ (earlier later : List Node) (state : Std.TreeSet Node × List (List Node)),
      finishOrder graph = later ++ earlier → Swept graph later state.1 state.2 →
      ∃ final : Std.TreeSet Node × List (List Node),
        earlier.foldl (fun (state : Std.TreeSet Node × List (List Node)) node =>
          if node ∈ state.1 then state
          else
            let swept := collectFrom (reverseGraph graph) [node] state.1 []
            (swept.1, state.2 ++ [swept.2.insertionSort (· ≤ ·)])) state = final ∧
        Swept graph (finishOrder graph) final.1 final.2
  | [], later, state, hsplit, h => by
    refine ⟨state, rfl, ?_⟩
    rw [hsplit, append_nil]
    exact h
  | node :: earlier, later, state, hsplit, h => by
    have hsplit' : finishOrder graph = (later ++ [node]) ++ earlier := by simp [hsplit]
    rw [foldl_cons]
    by_cases hseen : node ∈ state.1
    · rw [if_pos hseen]
      refine rest horder hall earlier (later ++ [node]) state hsplit' ?_
      refine ⟨h.seen_iff, ?_, h.isNode, h.nodup, h.nonempty, h.sorted, h.members⟩
      exact forall_mem_append.mpr ⟨h.later_seen, by simpa using hseen⟩
    · rw [if_neg hseen]
      obtain ⟨fresh, heq, hfresh⟩ :=
        collected_collectFrom (reverseGraph graph) [node] state.1 []
      refine rest horder hall earlier (later ++ [node]) _ hsplit' ?_
      dsimp only
      rw [heq, nil_append]
      exact h.collect horder hall hsplit hseen hfresh

end Swept

/-- The components in the order in which the second sweep cuts them off. -/
abbrev sweptComponents (graph : DependencyGraph Node) : List (List Node) :=
  collectComponents (reverseGraph graph) (finishOrder graph)

/-- **The second sweep** cuts the graph into its strongly connected components. -/
theorem sweptComponents_spec (graph : DependencyGraph Node) :
    Partition graph.Edge graph.IsNode (sweptComponents graph) ∧
      ∀ component ∈ sweptComponents graph, component.Pairwise (· < ·) := by
  obtain ⟨horder, hall⟩ := finishOrder_spec graph
  have hstart : Swept graph [] ∅ [] :=
    ⟨by simp, by simp, by simp, by simp, by simp, by simp, by simp⟩
  obtain ⟨final, heq, h⟩ := Swept.rest horder hall (finishOrder graph) [] (∅, []) rfl hstart
  have hswept : sweptComponents graph = final.2 := by
    rw [← heq]
    rfl
  have hmem : ∀ node, node ∈ final.2.flatten ↔ graph.IsNode node := fun node =>
    ⟨h.isNode node, fun hnode => (h.seen_iff node).mp (h.later_seen node ((hall node).mpr hnode))⟩
  rw [hswept]
  refine ⟨⟨hmem, h.nodup, h.nonempty, fun component hcomponent node hnode other => ?_⟩, h.sorted⟩
  rw [h.members component hcomponent node hnode other]
  refine ⟨fun hmutual => ⟨?_, hmutual⟩, And.right⟩
  have hnode' := h.isNode node (mem_flatten.mpr ⟨component, hcomponent, hnode⟩)
  exact DependencyGraph.isNode_of_reach hmutual.2 hnode'

end SecondSweep

/-! ## §6 The condensation -/

section Condense

variable {graph : DependencyGraph Node} {components : List (List Node)}

/-- One component, by position, has an edge into another. -/
def Linked (graph : DependencyGraph Node) (components : List (List Node)) (index target : Nat) :
    Prop :=
  index ≠ target ∧ ∃ component ∈ components[index]?, ∃ other ∈ components[target]?,
    ∃ node ∈ component, ∃ dependency ∈ other, graph.Edge node dependency

theorem getElem?_foldl_insert (nodes : List Node) (index : Nat) (node : Node) :
    ∀ positions : Std.TreeMap Node Nat,
      (nodes.foldl (fun positions node => positions.insert node index) positions)[node]? =
        if node ∈ nodes then some index else positions[node]? := by
  induction nodes with
  | nil => simp
  | cons first nodes ih =>
    intro positions
    rw [foldl_cons, ih, Std.TreeMap.getElem?_insert]
    by_cases hmem : node ∈ nodes
    · rw [if_pos hmem, if_pos (mem_cons_of_mem _ hmem)]
    · rw [if_neg hmem]
      by_cases heq : first = node
      · subst heq
        rw [if_pos Std.ReflCmp.compare_self, if_pos mem_cons_self]
      · rw [if_neg (by rwa [Std.LawfulEqCmp.compare_eq_iff_eq]), if_neg]
        rintro (_ | ⟨_, hin⟩)
        · exact heq rfl
        · exact hmem hin

/-- With disjoint components every node has the position of the component that holds it. -/
theorem getElem?_componentOf (hnodup : components.flatten.Nodup) {node : Node} {index : Nat} :
    (componentOf components)[node]? = some index ↔
      ∃ component ∈ components[index]?, node ∈ component := by
  suffices hfold : ∀ (rest : List (List Node)) (offset : Nat) (positions : Std.TreeMap Node Nat),
      rest.flatten.Nodup →
      (((rest.zipIdx offset).foldl (fun positions entry =>
        entry.1.foldl (fun positions node => positions.insert node entry.2) positions)
        positions)[node]? = some index ↔
      (∃ component, rest[index - offset]? = some component ∧ offset ≤ index ∧
        node ∈ component) ∨ (node ∉ rest.flatten ∧ positions[node]? = some index)) by
    have h := hfold components 0 ∅ hnodup
    simpa [componentOf] using h
  intro rest
  induction rest with
  | nil => simp
  | cons first rest ih =>
    intro offset positions hnodup
    rw [flatten_cons, nodup_append] at hnodup
    obtain ⟨_, hrest, hdisjoint⟩ := hnodup
    rw [zipIdx_cons, foldl_cons, ih (offset + 1) _ hrest, getElem?_foldl_insert,
      flatten_cons, mem_append]
    have hget : ∀ component, (first :: rest)[index - offset]? = some component ∧ offset ≤ index ↔
        (index = offset ∧ first = component) ∨
          (rest[index - (offset + 1)]? = some component ∧ offset + 1 ≤ index) := by
      intro component
      rcases Nat.lt_trichotomy index offset with hlt | rfl | hgt
      · exact ⟨fun h => absurd h.2 (by omega), fun h => by omega⟩
      · simp
      · have hsucc : index - offset = (index - (offset + 1)) + 1 := by omega
        rw [hsucc, getElem?_cons_succ]
        exact ⟨fun h => .inr ⟨h.1, hgt⟩,
          fun h => ⟨(h.resolve_left (by omega)).1, Nat.le_of_lt hgt⟩⟩
    have hflat : ∀ component, rest[index - (offset + 1)]? = some component → node ∈ component →
        node ∈ rest.flatten := fun component hcomponent hin =>
      mem_flatten.mpr ⟨component, mem_of_getElem? hcomponent, hin⟩
    simp only [← and_assoc, hget]
    -- the components are disjoint: a node of the first is in no later one
    by_cases hfirst : node ∈ first
    · have hout : node ∉ rest.flatten := fun hin => hdisjoint node hfirst node hin rfl
      rw [if_pos hfirst]
      constructor
      · rintro (⟨component, ⟨hcomponent, _⟩, hin⟩ | ⟨_, heq⟩)
        · exact absurd (hflat component hcomponent hin) hout
        · exact .inl ⟨first, .inl ⟨(Option.some.inj heq).symm, rfl⟩, hfirst⟩
      · rintro (⟨component, ⟨heq, rfl⟩ | ⟨hcomponent, _⟩, hin⟩ | ⟨hnone, _⟩)
        · exact .inr ⟨hout, by rw [heq]⟩
        · exact absurd (hflat component hcomponent hin) hout
        · exact absurd (.inl hfirst) hnone
    · rw [if_neg hfirst]
      constructor
      · rintro (⟨component, hcomponent, hin⟩ | ⟨hout, heq⟩)
        · exact .inl ⟨component, .inr hcomponent, hin⟩
        · exact .inr ⟨not_or.mpr ⟨hfirst, hout⟩, heq⟩
      · rintro (⟨component, ⟨_, rfl⟩ | hcomponent, hin⟩ | ⟨hout, heq⟩)
        · exact absurd hin hfirst
        · exact .inl ⟨component, hcomponent, hin⟩
        · exact .inr ⟨(not_or.mp hout).2, heq⟩

/-- Both sides of the condensation, with one set for every component. -/
structure CondensesTo (graph : DependencyGraph Node) (components : List (List Node))
    (edges : Condensation) : Prop where
  dependencies : ∀ index target, target ∈ edges.dependencies.getD index ∅ ↔
    Linked graph components index target
  dependents : ∀ index target, index ∈ edges.dependents.getD target ∅ ↔
    Linked graph components index target

/-- The members of the sets when one of them is modified. -/
theorem mem_modify (sets : List (Std.TreeSet Nat)) (f : Std.TreeSet Nat → Std.TreeSet Nat)
    (position index other : Nat) : other ∈ (sets.modify position f).getD index ∅ ↔
      if index = position ∧ position < sets.length then other ∈ f (sets.getD index ∅)
      else other ∈ sets.getD index ∅ := by
  rw [getD_eq_getElem?_getD, getD_eq_getElem?_getD, getElem?_modify]
  by_cases heq : position = index
  · subst heq
    by_cases hlt : position < sets.length
    · simp [hlt]
    · simp [hlt]
  · have hne : index ≠ position := fun h => heq h.symm
    simp [heq, hne]

theorem mem_modify_getD (sets : List (Std.TreeSet Nat)) (position index entry other : Nat) :
    other ∈ (sets.modify position (·.insert entry)).getD index ∅ ↔
      other ∈ sets.getD index ∅ ∨
        (index = position ∧ other = entry ∧ position < sets.length) := by
  rw [mem_modify]
  split_ifs with hat
  · simp [hat, or_comm, eq_comm (a := entry)]
  · grind

/-- The lists of sets keep their length while edges are recorded. -/
def Condensation.Sized (count : Nat) (edges : Condensation) : Prop :=
  edges.dependencies.length = count ∧ edges.dependents.length = count

theorem Condensation.link_spec {count : Nat} {edges : Condensation} (h : edges.Sized count)
    {component target : Nat} (hcomponent : component < count) (htarget : target < count)
    (index other : Nat) :
    (edges.link component target).Sized count ∧
      (other ∈ (edges.link component target).dependencies.getD index ∅ ↔
        other ∈ edges.dependencies.getD index ∅ ∨
          (index = component ∧ other = target ∧ index ≠ other)) ∧
      (index ∈ (edges.link component target).dependents.getD other ∅ ↔
        index ∈ edges.dependents.getD other ∅ ∨
          (index = component ∧ other = target ∧ index ≠ other)) := by
  unfold link
  split
  · rename_i heq
    subst heq
    refine ⟨h, (or_iff_left ?_).symm, (or_iff_left ?_).symm⟩
    · rintro ⟨rfl, rfl, hne⟩
      exact hne rfl
    · rintro ⟨rfl, rfl, hne⟩
      exact hne rfl
  · rename_i hne
    refine ⟨⟨by simpa using h.1, by simpa using h.2⟩, ?_, ?_⟩
    · rw [mem_modify_getD, h.1]
      refine or_congr Iff.rfl ⟨?_, fun ⟨hi, ho, _⟩ => ⟨hi, ho, hcomponent⟩⟩
      rintro ⟨rfl, rfl, _⟩
      exact ⟨rfl, rfl, hne⟩
    · rw [mem_modify_getD, h.2]
      refine or_congr Iff.rfl ⟨?_, fun ⟨hi, ho, _⟩ => ⟨ho, hi, htarget⟩⟩
      rintro ⟨rfl, rfl, _⟩
      exact ⟨rfl, rfl, hne⟩

/-- A fact that every link adds to holds of the condensation when the components are linked. -/
theorem condense_collects (hnodup : components.flatten.Nodup) (index other : Nat)
    (fact : Condensation → Prop)
    (hlink : ∀ edges component target, edges.Sized components.length →
      component < components.length → target < components.length →
      ((edges.link component target).Sized components.length ∧
        (fact (edges.link component target) ↔
          fact edges ∨ (index = component ∧ other = target ∧ index ≠ other))))
    (hstart : ¬ fact (.unlinked components.length)) :
    (condense graph components).Sized components.length ∧
      (fact (condense graph components) ↔ Linked graph components index other) := by
  have hpositions : ∀ (node : Node) (position : Nat),
      (componentOf components)[node]? = some position ↔
        ∃ component ∈ components[position]?, node ∈ component := fun _ _ =>
    getElem?_componentOf hnodup
  have hlt : ∀ (node : Node) (position : Nat), (componentOf components)[node]? = some position →
      position < components.length := by
    intro node position hget
    obtain ⟨component, hcomponent, _⟩ := (hpositions node position).mp hget
    exact (List.getElem?_eq_some_iff.mp hcomponent).1
  have hsized : (Condensation.unlinked components.length).Sized components.length := by
    simp [Condensation.Sized, Condensation.unlinked]
  -- the dependencies of one node of the component at `component`
  have hnode : ∀ (node : Node) (component : Nat), component < components.length →
      ∀ edges : Condensation, edges.Sized components.length →
      ((graph.targets node).foldl (linkDependency (componentOf components) component) edges).Sized
        components.length ∧
      (fact ((graph.targets node).foldl (linkDependency (componentOf components) component) edges) ↔
        fact edges ∨ ∃ dependency ∈ graph.targets node, index = component ∧
          (componentOf components)[dependency]? = some other ∧ index ≠ other) := by
    intro node component hcomponent edges hedges
    refine foldl_collects _ fact _ _ edges hedges (fun dependency _ edges hedges => ?_)
    unfold linkDependency
    cases hget : (componentOf components)[dependency]? with
    | none => exact ⟨hedges, by simp⟩
    | some target =>
      obtain ⟨hsize, hfact⟩ := hlink edges component target hedges hcomponent (hlt _ _ hget)
      refine ⟨hsize, ?_⟩
      rw [hfact, Option.some.injEq, eq_comm (a := target)]
  unfold condense
  rw [Std.TreeMap.foldl_eq_foldl_toList]
  obtain ⟨hfinal, hall⟩ := foldl_collects (Condensation.Sized components.length) fact
    (fun row => ∃ dependency ∈ graph.targets row.1, index = row.2 ∧
      (componentOf components)[dependency]? = some other ∧ index ≠ other)
    (componentOf components).toList (.unlinked components.length) hsized
    (fun row hrow edges hedges => hnode row.1 row.2
      (hlt _ _ (Std.TreeMap.mem_toList_iff_getElem?_eq_some.mp hrow)) edges hedges)
  refine ⟨hfinal, hall.trans ?_⟩
  constructor
  · rintro (hnone | ⟨row, hrow, dependency, hedge, rfl, hget, hne⟩)
    · exact absurd hnone hstart
    · obtain ⟨component, hcomponent, hin⟩ := (hpositions row.1 row.2).mp
        (Std.TreeMap.mem_toList_iff_getElem?_eq_some.mp hrow)
      obtain ⟨target, htarget, hin'⟩ := (hpositions dependency other).mp hget
      exact ⟨hne, component, hcomponent, target, htarget, row.1, hin, dependency, hin', hedge⟩
  · rintro ⟨hne, component, hcomponent, target, htarget, node, hin, dependency, hin', hedge⟩
    refine .inr ⟨(node, index), Std.TreeMap.mem_toList_iff_getElem?_eq_some.mpr
      ((hpositions node index).mpr ⟨component, hcomponent, hin⟩), dependency, hedge, rfl, ?_, hne⟩
    exact (hpositions dependency other).mpr ⟨target, htarget, hin'⟩

theorem not_mem_unlinked (count index other : Nat) :
    other ∉ (replicate count (∅ : Std.TreeSet Nat)).getD index ∅ := by
  rw [getD_eq_getElem?_getD, getElem?_replicate]
  split
  · exact not_mem_emptyc
  · exact not_mem_emptyc

/-- **The condensation** has exactly the edges between different components. -/
theorem condense_spec (hnodup : components.flatten.Nodup) :
    CondensesTo graph components (condense graph components) := by
  refine ⟨fun index target => ?_, fun index target => ?_⟩
  · refine (condense_collects hnodup index target
      (fun edges => target ∈ edges.dependencies.getD index ∅)
      (fun edges component other hedges hcomponent hother => ?_) (not_mem_unlinked _ _ _)).2
    have hlinked := Condensation.link_spec hedges hcomponent hother index target
    exact ⟨hlinked.1, hlinked.2.1⟩
  · refine (condense_collects hnodup index target
      (fun edges => index ∈ edges.dependents.getD target ∅)
      (fun edges component other hedges hcomponent hother => ?_) (not_mem_unlinked _ _ _)).2
    have hlinked := Condensation.link_spec hedges hcomponent hother index target
    exact ⟨hlinked.1, hlinked.2.2⟩

end Condense

/-! ## §7 Emitting the components -/

section Emit

variable {graph : DependencyGraph Node} {components : List (List Node)}

/-- Components at different positions share no node. -/
theorem position_eq (hpartition : Partition graph.Edge graph.IsNode components) {index other : Nat}
    {component second : List Node} (hindex : components[index]? = some component)
    (hother : components[other]? = some second) {node : Node} (hin : node ∈ component)
    (hin' : node ∈ second) : index = other := by
  have hnodup : components.Nodup := by
    refine (nodup_flatten.mp hpartition.nodup).2.imp_of_mem ?_
    rintro first _ hfirst _ hdisjoint rfl
    obtain ⟨node, hnode⟩ := exists_mem_of_ne_nil _ (hpartition.nonempty first hfirst)
    exact hdisjoint hnode hnode
  have heq := hpartition.eq_of_mem (List.mem_of_getElem? hindex) (List.mem_of_getElem? hother)
    hin hin'
  subst heq
  exact (List.getElem?_inj (List.getElem?_eq_some_iff.mp hindex).1 hnodup).mp
    (hindex.trans hother.symm)

/-- A component is ready when every component that it has an edge into is out. -/
theorem readyAfter_iff (hpartition : Partition graph.Edge graph.IsNode components) {done : List Nat}
    (hdone : ∀ index ∈ done, index < components.length) {index : Nat}
    (hindex : index < components.length) :
    ReadyAfter graph.Edge (done.map (fun other => components.getD other []))
        (components.getD index []) ↔
      ∀ target, Linked graph components index target → target ∈ done := by
  have hvalue : ∀ other (hlt : other < components.length),
      components.getD other [] = components[other] := by
    intro other hlt
    rw [getD_eq_getElem?_getD, getElem?_eq_getElem hlt, Option.getD_some]
  have hget : ∀ other, other < components.length →
      components[other]? = some (components.getD other []) := by
    intro other hlt
    rw [getElem?_eq_getElem hlt, hvalue other hlt]
  constructor
  · rintro hready target ⟨hne, component, hcomponent, other, hother, node, hnode, dependency,
      hdependency, hedge⟩
    have heq : components.getD index [] = component :=
      Option.some.inj ((hget index hindex).symm.trans hcomponent)
    rw [heq] at hready
    rcases hready node hnode dependency hedge with hin | hin
    · exact absurd (position_eq hpartition hcomponent hother hin hdependency) hne
    · obtain ⟨_, hmem, hin⟩ := mem_flatten.mp hin
      obtain ⟨position, hposition, rfl⟩ := mem_map.mp hmem
      have htarget := position_eq hpartition (hget position (hdone position hposition)) hother
        hin hdependency
      exact htarget ▸ hposition
  · intro hlinked node hnode target hedge
    obtain ⟨component, hcomponent, hin⟩ := hpartition.exists_component hedge.isNode_target
    obtain ⟨position, hlt, rfl⟩ := mem_iff_getElem.mp hcomponent
    by_cases heq : index = position
    · subst heq
      rw [hvalue _ hlt]
      exact .inl hin
    · refine .inr (mem_flatten.mpr ⟨_, mem_map_of_mem (hlinked position ?_), ?_⟩)
      · exact ⟨heq, _, hget index hindex, _, getElem?_eq_getElem hlt, node, hnode, target,
          hin, hedge⟩
      · rw [hvalue _ hlt]
        exact hin

/-- The state of the third loop after the components at `done`. -/
structure Emitting (graph : DependencyGraph Node) (components : List (List Node))
    (done : List Nat) (dependencies : List (Std.TreeSet Nat)) (ready : ReadySet Node) : Prop where
  kahn : Kahn (· < components.length) (Linked graph components) done
    (fun index target => target ∈ dependencies.getD index ∅)
    (fun index => ∃ key, toLex (key, index) ∈ ready)
  keyed : ∀ key index, toLex (key, index) ∈ ready → (components.getD index []).head? = some key

/-- The least node of one component is not above that of another. -/
def StartsBefore (components : List (List Node)) (index other : Nat) : Prop :=
  ∀ first ∈ (components.getD index []).head?, ∀ second ∈ (components.getD other []).head?,
    first ≤ second

theorem mem_insertReady {ready : ReadySet Node} {index other : Nat} {key : Node} :
    toLex (key, other) ∈ insertReady components ready index ↔
      toLex (key, other) ∈ ready ∨
        (other = index ∧ (components.getD index []).head? = some key) := by
  unfold insertReady
  cases hhead : (components.getD index []).head? with
  | none => simp
  | some first =>
    rw [mem_insert_iff, EmbeddingLike.apply_eq_iff_eq, Prod.mk.injEq, or_comm]
    refine or_congr Iff.rfl ⟨?_, ?_⟩
    · rintro ⟨rfl, rfl⟩
      exact ⟨rfl, rfl⟩
    · rintro ⟨rfl, heq⟩
      exact ⟨(Option.some.inj heq).symm, rfl⟩

theorem mem_modify_erase (sets : List (Std.TreeSet Nat)) (position index entry other : Nat) :
    other ∈ (sets.modify position (·.erase entry)).getD index ∅ ↔
      other ∈ sets.getD index ∅ ∧ ¬ (index = position ∧ other = entry) := by
  rw [mem_modify]
  split_ifs with hat
  · simp [hat, mem_erase, and_comm, eq_comm (a := entry)]
  · grind

theorem head?_isSome (hpartition : Partition graph.Edge graph.IsNode components) {index : Nat}
    (hindex : index < components.length) :
    ∃ key, (components.getD index []).head? = some key := by
  rw [getD_eq_getElem?_getD, getElem?_eq_getElem hindex, Option.getD_some]
  have hne := hpartition.nonempty components[index] (getElem_mem hindex)
  obtain ⟨key, rest, heq⟩ := exists_cons_of_ne_nil hne
  exact ⟨key, by rw [heq]; rfl⟩

omit [LinearOrder Node] in
theorem lt_of_head?_eq_some {index : Nat} {key : Node}
    (h : (components.getD index []).head? = some key) : index < components.length := by
  by_contra hout
  rw [getD_eq_getElem?_getD, getElem?_eq_none (Nat.le_of_not_lt hout)] at h
  cases h

section Emit

variable (hpartition : Partition graph.Edge graph.IsNode components)
include hpartition

/-- Emitting the component at `index` moves the state on. -/
theorem Emitting.emit {edges : Condensation} (hedges : CondensesTo graph components edges)
    {done : List Nat} {dependencies : List (Std.TreeSet Nat)} {ready : ReadySet Node}
    (h : Emitting graph components done dependencies ready) {key : Node} {index : Nat}
    (hready : toLex (key, index) ∈ ready) :
    Emitting graph components (done ++ [index])
      ((edges.dependents.getD index ∅).foldl (release components index)
        (dependencies, ready.erase (toLex (key, index)))).1
      ((edges.dependents.getD index ∅).foldl (release components index)
        (dependencies, ready.erase (toLex (key, index)))).2 := by
  rw [foldl_eq_foldl_toList]
  have hlinked : ∀ other, Linked graph components other index → other < components.length := by
    rintro other ⟨_, component, hcomponent, _⟩
    exact (List.getElem?_eq_some_iff.mp hcomponent).1
  have hdependents : ∀ other, other ∈ (edges.dependents.getD index ∅).toList ↔
      other < components.length ∧ Linked graph components other index := by
    intro other
    rw [mem_toList, hedges.dependents]
    exact ⟨fun hother => ⟨hlinked other hother, hother⟩, And.right⟩
  have hkeyed : ∀ first other, toLex (first, other) ∈ ready.erase (toLex (key, index)) →
      (components.getD other []).head? = some first :=
    fun first other hin => h.keyed first other (mem_erase_iff.mp hin).2
  obtain ⟨hkahn, hkeyed⟩ := Kahn.emit_foldl
    (fun state index target => target ∈ state.1.getD index ∅)
    (fun state index => ∃ key, toLex (key, index) ∈ state.2) (release components index)
    (dependencies, ready) (dependencies, ready.erase (toLex (key, index))) h.kahn ⟨key, hready⟩
    (fun hself => hself.1 rfl) (fun _ _ => Iff.rfl) (exists_mem_erase_iff h.keyed hready)
    hdependents
    (fun state => ∀ key index, toLex (key, index) ∈ state.2 →
      (components.getD index []).head? = some key) hkeyed (by
    intro dependent hdependent state hkeyed
    obtain ⟨hlt, _⟩ := (hdependents dependent).mp hdependent
    obtain ⟨first, hfirst⟩ := head?_isSome hpartition hlt
    -- a dependent is ready once this was its last dependency
    have hempty : ((state.1.modify dependent (·.erase index)).getD dependent ∅).isEmpty = true ↔
        ∀ target ∈ state.1.getD dependent ∅, target = index := by
      rw [isEmpty_iff_forall_not_mem]
      simp only [mem_modify_erase, true_and, not_and, not_not]
    refine ⟨fun key other hin => ?_, fun other target => mem_modify_erase _ _ _ _ _,
      fun other => ?_⟩
    · simp only [release] at hin
      split at hin
      · rcases mem_insertReady.mp hin with hin | ⟨rfl, hhead⟩
        · exact hkeyed key other hin
        · exact hhead
      · exact hkeyed key other hin
    · simp only [release]
      split
      · rename_i hin
        simp only [mem_insertReady, exists_or, exists_and_left, hfirst, Option.some.injEq,
          exists_eq', and_true]
        exact or_congr Iff.rfl ⟨fun heq => ⟨heq, hempty.mp hin⟩, And.left⟩
      · rename_i hout
        rw [hempty] at hout
        simp only [hout, and_false, or_false])
  exact ⟨hkahn, hkeyed⟩

/-- When no component is ready, every component is out. -/
theorem Emitting.complete {done : List Nat} {dependencies : List (Std.TreeSet Nat)}
    {ready : ReadySet Node} (h : Emitting graph components done dependencies ready)
    (hnone : ∀ entry, entry ∉ ready) (index : Nat) (hindex : index < components.length) :
    index ∈ done := by
  have hvalue : ∀ other, other < components.length →
      components[other]? = some (components.getD other []) := by
    intro other hlt
    rw [getD_eq_getElem?_getD, getElem?_eq_getElem hlt, Option.getD_some]
  by_contra hout
  obtain ⟨component, hcomponent, hmissing, hready⟩ := hpartition.exists_ready
    (fun node target _ hedge => hedge.isNode_target)
    (done.map (fun other => components.getD other []))
    (mem_of_getElem? (hvalue index hindex)) (fun hmem => by
      obtain ⟨other, hother, heq⟩ := mem_map.mp hmem
      obtain ⟨key, hkey⟩ := head?_isSome hpartition hindex
      have hin : key ∈ components.getD index [] := mem_of_mem_head? hkey
      have hsame := position_eq hpartition (hvalue other (h.kahn.isNode other hother))
        (hvalue index hindex) (heq ▸ hin) hin
      exact hout (hsame ▸ hother))
  obtain ⟨position, hlt, rfl⟩ := mem_iff_getElem.mp hcomponent
  have heq : components.getD position [] = components[position] := by
    rw [getD_eq_getElem?_getD, getElem?_eq_getElem hlt, Option.getD_some]
  rw [← heq] at hready hmissing
  obtain ⟨key, hkey⟩ := (h.kahn.ready_iff position).mpr ⟨hlt,
    fun hin => hmissing (mem_map_of_mem hin),
    (readyAfter_iff hpartition h.kahn.isNode hlt).mp hready⟩
  exact hnone _ hkey

/-- **The third loop** emits every component, with fuel for the components that are left. -/
theorem emitReady_spec {edges : Condensation} (hedges : CondensesTo graph components edges) :
    ∀ (fuel : Nat) (done : List Nat) (dependencies : List (Std.TreeSet Nat))
      (ready : ReadySet Node), Emitting graph components done dependencies ready →
      components.length ≤ fuel + done.length →
      ∃ rest, emitReady components edges.dependents fuel dependencies ready = some rest ∧
        GreedyRest (· < components.length) (Linked graph components) (StartsBefore components)
          done rest := by
  intro fuel
  induction fuel with
  | zero =>
    intro done dependencies ready h hfuel
    have hnone : ∀ entry, entry ∉ ready := by
      intro entry hentry
      have hlt := h.kahn.length_lt (fun index hindex => mem_range.mpr hindex)
        ⟨(ofLex entry).1, hentry⟩
      rw [length_range] at hlt
      omega
    have hhead : ready.toList.head? = none := by
      rw [head?_eq_none_iff, eq_nil_iff_forall_not_mem]
      exact fun entry hentry => hnone entry (mem_of_mem_toList hentry)
    rw [emitReady, hhead]
    exact ⟨[], rfl, h.kahn.finished (h.complete hpartition hnone)⟩
  | succ fuel ih =>
    intro done dependencies ready h hfuel
    rw [emitReady]
    cases hhead : ready.toList.head? with
    | none =>
      exact ⟨[], rfl, h.kahn.finished (h.complete hpartition (not_mem_of_head?_toList hhead))⟩
    | some entry =>
      obtain ⟨hready, hmin⟩ := head?_toList_spec hhead
      obtain ⟨rest, heq, horder⟩ := ih (done ++ [(ofLex entry).2]) _ _
        (h.emit hpartition hedges hready)
        (by rw [length_append, length_singleton]; omega)
      refine ⟨(ofLex entry).2 :: rest, congrArg (Option.map _) heq, horder.cons ?_ ?_⟩
      · exact ((h.kahn.ready_iff (ofLex entry).2).mp ⟨(ofLex entry).1, hready⟩).2.2
      · intro other hlt hout hall first hfirst second hsecond
        obtain ⟨key, hkey⟩ := (h.kahn.ready_iff other).mpr ⟨hlt, hout, hall⟩
        have hsame : (ofLex entry).1 = first :=
          Option.some.inj ((h.keyed _ _ hready).symm.trans hfirst)
        have hsame' : key = second := Option.some.inj ((h.keyed _ _ hkey).symm.trans hsecond)
        subst hsame hsame'
        rcases Prod.Lex.le_iff.mp (hmin _ hkey) with hless | ⟨heq, _⟩
        · exact le_of_lt hless
        · exact le_of_eq heq

end Emit

end Emit

/-! ## §8 The result -/

/-- The components that are ready before anything is emitted. -/
theorem emitting_start {graph : DependencyGraph Node} {components : List (List Node)}
    (hpartition : Partition graph.Edge graph.IsNode components) {edges : Condensation}
    (hedges : CondensesTo graph components edges) :
    Emitting graph components [] edges.dependencies
      ((range components.length).foldl (fun ready index =>
        if (edges.dependencies.getD index ∅).isEmpty then insertReady components ready index
        else ready) ∅) := by
  have hempty : ∀ other, (edges.dependencies.getD other ∅).isEmpty = true ↔
      ∀ target, ¬ Linked graph components other target := by
    intro other
    rw [isEmpty_iff_forall_not_mem]
    exact forall_congr' (fun target => not_congr (hedges.dependencies other target))
  -- ready at the start: the components without a dependency
  have hready : ∀ key index, toLex (key, index) ∈
      ((range components.length).foldl (fun ready index =>
        if (edges.dependencies.getD index ∅).isEmpty then insertReady components ready index
        else ready) (∅ : ReadySet Node)) ↔
      (components.getD index []).head? = some key ∧
        ∀ target, ¬ Linked graph components index target := by
    intro key index
    rw [(foldl_collects (fun _ => True) (fun ready : ReadySet Node => toLex (key, index) ∈ ready)
      (fun other => index = other ∧ (components.getD other []).head? = some key ∧
        ∀ target, ¬ Linked graph components other target) _ _ trivial
      (fun other _ ready _ => ⟨trivial, by
        split
        · rename_i hin
          rw [mem_insertReady]
          exact or_congr Iff.rfl
            ⟨fun h => ⟨h.1, h.2, (hempty other).mp hin⟩, fun h => ⟨h.1, h.2.1⟩⟩
        · rename_i hout
          rw [hempty] at hout
          simp only [hout, and_false, or_false]⟩)).2]
    have hnone : toLex (key, index) ∉ (∅ : ReadySet Node) := not_mem_emptyc
    simp only [hnone, false_or]
    constructor
    · rintro ⟨other, _, rfl, hstart⟩
      exact hstart
    · intro hstart
      exact ⟨index, mem_range.mpr (lt_of_head?_eq_some hstart.1), rfl, hstart⟩
  refine ⟨⟨nodup_nil, by simp, fun index target _ => ?_, fun index => ?_, by simp⟩,
    fun key index hin => ((hready key index).mp hin).1⟩
  · rw [hedges.dependencies]
    simp
  · simp only [hready, not_mem_nil, not_false_eq_true, true_and, imp_false]
    constructor
    · rintro ⟨key, hkey, hall⟩
      exact ⟨lt_of_head?_eq_some hkey, hall⟩
    · rintro ⟨hlt, hall⟩
      obtain ⟨key, hkey⟩ := head?_isSome hpartition hlt
      exact ⟨key, hkey, hall⟩

omit [LinearOrder Node] in
/-- A permutation of the positions permutes the components. -/
theorem map_getD_perm {components : List (List Node)} {order : List Nat} (hnodup : order.Nodup)
    (hall : ∀ index, index ∈ order ↔ index < components.length) :
    (order.map (fun index => components.getD index [])).Perm components := by
  have hperm : order.Perm (range components.length) := by
    rw [perm_ext_iff_of_nodup hnodup nodup_range]
    exact fun index => (hall index).trans mem_range.symm
  have hmap : (range components.length).map (fun index => components.getD index []) =
      components := by
    refine ext_getElem (by simp) (fun index hlt hlt' => ?_)
    rw [getElem_map, getElem_range, getD_eq_getElem?_getD,
      getElem?_eq_getElem hlt', Option.getD_some]
  have hmapped := hperm.map (fun index => components.getD index [])
  rw [hmap] at hmapped
  exact hmapped

/-- **The canonical order**: `dependency_first_sccs` lists the components of the graph so that
each comes after the ones it depends on and the least ready component always goes first. -/
theorem dependencyFirstSccs_canonical (graph : DependencyGraph Node) :
    DependencyFirst graph.Edge graph.IsNode (dependencyFirstSccs graph) := by
  obtain ⟨hpartition, hsorted⟩ := sweptComponents_spec graph
  have hedges : CondensesTo graph (sweptComponents graph) (condense graph (sweptComponents graph)) :=
    condense_spec hpartition.nodup
  obtain ⟨order, heq, horder⟩ := emitReady_spec hpartition hedges
    (sweptComponents graph).length [] _ _ (emitting_start hpartition hedges) (by simp)
  have hresult : dependencyFirstSccs graph =
      order.map (fun index => (sweptComponents graph).getD index []) := by
    unfold dependencyFirstSccs
    dsimp only
    rw [heq]
    rfl
  have hcomplete : ∀ index, index ∈ order ↔ index < (sweptComponents graph).length := by
    simpa using horder.complete
  -- every component is emitted once
  have hperm := map_getD_perm (by simpa using horder.nodup) hcomplete
  rw [← hresult] at hperm
  have hmem : ∀ component, component ∈ dependencyFirstSccs graph ↔
      component ∈ sweptComponents graph := fun component => hperm.mem_iff
  have hbound : ∀ front index back, order = front ++ index :: back →
      (∀ other ∈ front, other < (sweptComponents graph).length) ∧
        index < (sweptComponents graph).length ∧
        ∀ other ∈ back, other < (sweptComponents graph).length := by
    intro front index back hsplit
    refine ⟨fun other hother => ?_, ?_, fun other hother => ?_⟩
    · exact (hcomplete other).mp (by simp [hsplit, hother])
    · exact (hcomplete index).mp (by simp [hsplit])
    · exact (hcomplete other).mp (by simp [hsplit, hother])
  refine ⟨⟨fun node => ?_, ?_, ?_, ?_⟩, ?_, ?_, ?_⟩
  · rw [hperm.flatten.mem_iff]
    exact hpartition.mem_iff node
  · exact hperm.flatten.nodup_iff.mpr hpartition.nodup
  · exact fun component hcomponent => hpartition.nonempty component ((hmem component).mp hcomponent)
  · exact fun component hcomponent => hpartition.members component ((hmem component).mp hcomponent)
  · exact fun component hcomponent => hsorted component ((hmem component).mp hcomponent)
  · intro done component rest hsplit
    rw [hresult] at hsplit
    obtain ⟨front, tail, horder', rfl, htail⟩ := map_eq_append_iff.mp hsplit
    obtain ⟨index, back, rfl, rfl, rfl⟩ := map_eq_cons_iff.mp htail
    obtain ⟨hfront, hindex, _⟩ := hbound front index back horder'
    exact (readyAfter_iff hpartition hfront hindex).mpr (horder.ready front index back horder')
  · intro done component rest hsplit other hother hready
    rw [hresult] at hsplit
    obtain ⟨front, tail, horder', rfl, htail⟩ := map_eq_append_iff.mp hsplit
    obtain ⟨index, back, rfl, rfl, rfl⟩ := map_eq_cons_iff.mp htail
    obtain ⟨hfront, hindex, hback⟩ := hbound front index back horder'
    obtain ⟨position, hposition, rfl⟩ := mem_map.mp hother
    exact horder.least front index back horder' position hposition
      ((readyAfter_iff hpartition hfront (hback position hposition)).mp hready)

/-- A component comes after the other components that it depends on. -/
theorem position_lt {graph : DependencyGraph Node} {index target : Nat}
    {component dependency : List Node} (hindex : (dependencyFirstSccs graph)[index]? = some component)
    (htarget : (dependencyFirstSccs graph)[target]? = some dependency) (hne : index ≠ target)
    (hedge : ∃ node ∈ component, ∃ other ∈ dependency, other ∈ graph.targets node) :
    target < index := by
  have h := dependencyFirstSccs_canonical graph
  obtain ⟨node, hnode, other, hother, hedge⟩ := hedge
  obtain ⟨hlt, rfl⟩ := List.getElem?_eq_some_iff.mp hindex
  have hsplit : dependencyFirstSccs graph = (dependencyFirstSccs graph).take index ++
      (dependencyFirstSccs graph)[index] :: (dependencyFirstSccs graph).drop (index + 1) := by
    rw [getElem_cons_drop, take_append_drop]
  rcases h.ready _ _ _ hsplit node hnode other hedge with hin | hin
  · exact absurd (position_eq h.toPartition hindex htarget hin hother) hne
  · -- the target was emitted before, and no other position holds it
    obtain ⟨found, hfound, hin⟩ := mem_flatten.mp hin
    obtain ⟨position, hposition, rfl⟩ := mem_iff_getElem.mp hfound
    rw [length_take] at hposition
    have hget : (dependencyFirstSccs graph)[position]? =
        some ((dependencyFirstSccs graph).take index)[position] := by
      rw [getElem_take, getElem?_eq_getElem]
    have hsame := position_eq h.toPartition hget htarget hin hother
    omega

/-- **Dependency-first components**: every key and every target is listed once, two nodes share
a component exactly when each reaches the other, components are sorted, and a component comes
after every other component that one of its nodes depends on. -/
theorem dependencyFirstSccs_spec (graph : DependencyGraph Node) :
    (dependencyFirstSccs graph).flatten.Nodup ∧
      (∀ node, node ∈ (dependencyFirstSccs graph).flatten ↔
        node ∈ graph ∨ ∃ key, node ∈ graph.targets key) ∧
      (∀ node other, graph.IsNode node → graph.IsNode other →
        ((∃ component ∈ dependencyFirstSccs graph, node ∈ component ∧ other ∈ component) ↔
          Relation.ReflTransGen graph.Edge node other ∧
            Relation.ReflTransGen graph.Edge other node)) ∧
      (∀ component ∈ dependencyFirstSccs graph, component ≠ [] ∧ component.Pairwise (· < ·)) ∧
      ∀ (index target : Nat) (component dependency : List Node),
        (dependencyFirstSccs graph)[index]? = some component →
        (dependencyFirstSccs graph)[target]? = some dependency → index ≠ target →
        (∃ node ∈ component, ∃ other ∈ dependency, other ∈ graph.targets node) →
        target < index := by
  have h := dependencyFirstSccs_canonical graph
  refine ⟨h.nodup, h.mem_iff, fun node other hnode hother => ?_, fun component hcomponent =>
    ⟨h.nonempty component hcomponent, h.sorted component hcomponent⟩, ?_⟩
  · constructor
    · rintro ⟨component, hcomponent, hin, hin'⟩
      exact ((h.members component hcomponent node hin other).mp hin').2
    · intro hmutual
      obtain ⟨component, hcomponent, hin⟩ := h.exists_component hnode
      exact ⟨component, hcomponent, hin,
        (h.members component hcomponent node hin other).mpr ⟨hother, hmutual⟩⟩
  · exact fun index target component dependency hindex htarget hne hedge =>
      position_lt hindex htarget hne hedge

-- a cycle of two keys, a self edge and a target that is not a key
example : dependencyFirstSccs (Std.TreeMap.ofList [(3, ofList [1, 3]),
    (1, ofList [2]), (2, ofList [1, 7])]) = [[7], [1, 2], [3]] := by
  decide +kernel

end Typokat.Check
