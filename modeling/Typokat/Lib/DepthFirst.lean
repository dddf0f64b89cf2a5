import Mathlib.Data.Finset.Card
import Mathlib.Data.Fintype.Card
import Mathlib.Data.Set.Finite.Basic
import Mathlib.Data.List.Chain
import Mathlib.Data.List.Nodup
import Mathlib.Logic.Relation

/-!
# Depth-First Search with Unseen Nodes

Two recursive searches over the targets of a node.  `depthFirst` lists the nodes in the
order in which they finish; a node that is still open is passed over like a finished one.
`findCycle` stops at the first target that is still open and returns the part of the stack
that closes there.

Both searches take the nodes to visit as a list: the targets of a node and the roots of the
whole search are visited by the same loop.

## Main Results

- `Finishing.whole_spec` : the whole search lists every node once, and every target of a
  node in front of it or on a way back to it
- `TargetsFirst.foldl_spec` : a table filled in such an order has every entry computed from
  final entries
- `Tracking.whole_spec` : a reported path is a simple cycle, and one is reported if there is any
-/

namespace Typokat.Lib

open Finset List Relation

universe u

variable {α : Type u} {edge : α → α → Prop}

/-- `Acyclic edge` : no node reaches itself along at least one edge. -/
def Acyclic (edge : α → α → Prop) : Prop := ∀ node, ¬ Relation.TransGen edge node node

/-- Every target of a listed node stands in front of it. -/
def TargetsFirst (edge : α → α → Prop) (order : List α) : Prop :=
  ∀ front node back, order = front ++ node :: back → ∀ target, edge node target → target ∈ front

/-- A path along edges that starts and ends at one node and repeats no other. -/
structure CyclePath (edge : α → α → Prop) (path : List α) : Prop where
  chain : path.IsChain edge
  closed : path.head? = path.getLast?
  simple : path.dropLast.Nodup
  two_le : 2 ≤ path.length

/-! ## §1 The order in which nodes finish -/

/-- The nodes that were not entered yet, and those that are finished. -/
structure Finishing (α : Type u) where
  unseen : Finset α
  order : List α

/-- Take an unseen node up. -/
def Finishing.enter [DecidableEq α] (search : Finishing α) (node : α) : Finishing α :=
  { search with unseen := search.unseen.erase node }

/-- List a node whose targets are visited. -/
def Finishing.leave (search : Finishing α) (node : α) : Finishing α :=
  { search with order := search.order ++ [node] }

/-- A node of the graph that is neither unseen nor listed is open. -/
def Finishing.Open (nodes : Finset α) (search : Finishing α) (node : α) : Prop :=
  node ∈ nodes ∧ node ∉ search.unseen ∧ node ∉ search.order

/-- Every target of a listed node was listed before it, or reaches it. -/
def Settled (edge : α → α → Prop) (order : List α) : Prop :=
  ∀ front node back, order = front ++ node :: back → ∀ target, edge node target →
    target ∈ front ∨ Relation.ReflTransGen edge target node

theorem Settled.snoc {order : List α} {node : α} (h : Settled edge order)
    (hnode : ∀ target, edge node target →
      target ∈ order ∨ ReflTransGen edge target node) :
    Settled edge (order ++ [node]) := by
  intro front other back hsplit
  -- the listed node is the new one, or it is one of the old list
  rcases eq_nil_or_concat back with hback | ⟨init, last, hback⟩
  · subst hback
    obtain ⟨hfront, hother⟩ := append_inj' hsplit rfl
    simp only [cons.injEq, and_true] at hother
    subst hfront hother
    exact hnode
  · subst hback
    have hsplit' : order ++ [node] = (front ++ other :: init) ++ [last] := by
      simpa using hsplit
    exact h front other init (append_inj' hsplit' rfl).1

theorem Settled.targetsFirst {order : List α} (h : Settled edge order) (hacyclic : Acyclic edge) :
    TargetsFirst edge order := by
  intro front node back hsplit target htarget
  apply (h front node back hsplit target htarget).resolve_right
  intro hback
  exact hacyclic node (TransGen.head' htarget hback)

variable [DecidableEq α] {targets : α → List α}

/-- Visit the pending nodes one after the other, each with all its targets. -/
def depthFirst (targets : α → List α) : (pending : List α) → (search : Finishing α) →
    { final : Finishing α // final.unseen ⊆ search.unseen }
  | [], search => ⟨search, Finset.Subset.refl _⟩
  | node :: rest, search =>
    if _hnode : node ∈ search.unseen then
      let inner := depthFirst targets (targets node) (search.enter node)
      let final := depthFirst targets rest (inner.val.leave node)
      ⟨final.val, final.property.trans (inner.property.trans (Finset.erase_subset _ _))⟩
    else depthFirst targets rest search
termination_by pending search => (search.unseen.card, pending.length)
decreasing_by
  · exact Prod.Lex.left _ _ (card_erase_lt_of_mem _hnode)
  -- the targets were visited with `node` taken out, so fewer nodes are left for the rest
  · apply Prod.Lex.left
    exact lt_of_le_of_lt (card_le_card inner.property)
      (card_erase_lt_of_mem _hnode)
  · exact Prod.Lex.right _ (Nat.lt_succ_self _)

/-- The search after the pending nodes. -/
def Finishing.after (search : Finishing α) (targets : α → List α) (pending : List α) :
    Finishing α :=
  (depthFirst targets pending search).val

namespace Finishing

@[simp] theorem after_nil (search : Finishing α) : search.after targets [] = search := by
  simp [after, depthFirst]

theorem after_cons_seen {search : Finishing α} {node : α} (h : node ∉ search.unseen) (rest : List α) :
    search.after targets (node :: rest) = search.after targets rest := by
  unfold after
  rw [depthFirst, dif_neg h]

theorem after_cons_unseen {search : Finishing α} {node : α} (h : node ∈ search.unseen)
    (rest : List α) : search.after targets (node :: rest) =
      (((search.enter node).after targets (targets node)).leave node).after targets rest := by
  unfold after
  rw [depthFirst, dif_pos h]

/-- A search can be followed along its recursion: first the targets of a node, then the
rest of the pending nodes. -/
theorem visit_induction (targets : α → List α) {motive : List α → Finishing α → Prop}
    (nil : ∀ search, motive [] search)
    (unseen : ∀ node rest search, node ∈ search.unseen →
      motive (targets node) (search.enter node) →
      motive rest (((search.enter node).after targets (targets node)).leave node) →
      motive (node :: rest) search)
    (seen : ∀ node rest search, node ∉ search.unseen → motive rest search →
      motive (node :: rest) search)
    (pending : List α) (search : Finishing α) : motive pending search := by
  induction pending, search using depthFirst.induct targets with
  | case1 search => exact nil search
  | case2 node rest search hnode _ ihTargets ihRest =>
    exact unseen node rest search hnode ihTargets ihRest
  | case3 node rest search hnode ihRest => exact seen node rest search hnode ihRest

/-- What a search may be in when it turns to the pending nodes. -/
structure Ready (edge : α → α → Prop) (nodes : Finset α) (search : Finishing α)
    (pending : List α) : Prop where
  nodup : search.order.Nodup
  disjoint : ∀ node ∈ search.order, node ∉ search.unseen
  settled : Settled edge search.order
  /-- the open nodes are those on the way to the pending ones -/
  reaches : ∀ node, search.Open nodes node → ∀ next ∈ pending, Relation.ReflTransGen edge node next

/-- What a search has done when no node is pending. -/
structure Visited (edge : α → α → Prop) (search : Finishing α) (pending : List α)
    (final : Finishing α) : Prop where
  unseen_subset : final.unseen ⊆ search.unseen
  /-- exactly the nodes that were entered are listed -/
  mem_order : ∀ node, node ∈ final.order ↔
    node ∈ search.order ∨ (node ∈ search.unseen ∧ node ∉ final.unseen)
  nodup : final.order.Nodup
  pending_seen : ∀ node ∈ pending, node ∉ final.unseen
  settled : Settled edge final.order

variable {search found final : Finishing α} {nodes : Finset α} {node : α}

omit [DecidableEq α] in
variable {rest : List α}

theorem Ready.tail (h : search.Ready edge nodes (node :: rest)) :
    search.Ready edge nodes rest :=
  ⟨h.nodup, h.disjoint, h.settled,
    fun other hother next hnext => h.reaches other hother next (mem_cons_of_mem _ hnext)⟩

theorem Ready.enter (h : search.Ready edge nodes (node :: rest))
    (htargets : ∀ target ∈ targets node, edge node target) :
    (search.enter node).Ready edge nodes (targets node) := by
  refine ⟨h.nodup, ?_, h.settled, ?_⟩
  · intro other hother hunseen
    exact h.disjoint other hother (mem_of_mem_erase hunseen)
  · intro other hother target htarget
    -- `node` is open now, and every other open node reaches it
    by_cases hne : other = node
    · subst hne
      exact .single (htargets target htarget)
    · obtain ⟨hin, hseen, hlisted⟩ := hother
      have hopen : search.Open nodes other :=
        ⟨hin, by simpa [Finishing.enter, hne] using hseen, hlisted⟩
      exact (h.reaches other hopen node mem_cons_self).tail (htargets target htarget)

theorem Visited.node_seen (h : Visited edge (search.enter node) (targets node) found) :
    node ∉ found.unseen :=
  fun hunseen => notMem_erase node search.unseen (h.unseen_subset hunseen)

/-- What is open after the targets of a node is that node, or was open before. -/
theorem Visited.open_cases (h : Visited edge (search.enter node) (targets node) found) {other : α}
    (hother : found.Open nodes other) (hne : other ≠ node) :
    search.Open nodes other := by
  obtain ⟨hin, hseen, hlisted⟩ := hother
  rw [h.mem_order] at hlisted
  push Not at hlisted
  refine ⟨hin, fun hunseen => hseen (hlisted.2 ?_), hlisted.1⟩
  exact mem_erase.mpr ⟨hne, hunseen⟩

theorem Ready.leave (h : search.Ready edge nodes (node :: rest)) (hnode : node ∈ search.unseen)
    (htargets : ∀ target, edge node target → target ∈ targets node)
    (hnodes : ∀ target, edge node target → target ∈ nodes)
    (hfound : Visited edge (search.enter node) (targets node) found) :
    (found.leave node).Ready edge nodes rest := by
  have hfresh : node ∉ found.order := by
    rw [hfound.mem_order]
    rintro (hlisted | hentered)
    · exact h.disjoint node hlisted hnode
    · exact notMem_erase node search.unseen hentered.1
  refine ⟨?_, ?_, ?_, ?_⟩
  · apply List.Nodup.append hfound.nodup (nodup_singleton node)
    simpa using hfresh
  · intro other hother
    rcases mem_append.mp hother with hother | hother
    · rcases (hfound.mem_order other).mp hother with hold | hnew
      · exact fun hunseen => h.disjoint other hold
          (mem_of_mem_erase (hfound.unseen_subset hunseen))
      · exact hnew.2
    · rw [List.mem_singleton] at hother
      subst hother
      exact hfound.node_seen
  · apply hfound.settled.snoc
    intro target htarget
    by_cases hlisted : target ∈ found.order
    · exact .inl hlisted
    · -- the target is open: it is `node` itself, or it was open before and reaches `node`
      right
      by_cases hne : target = node
      · subst hne
        exact .refl
      · have hopen : found.Open nodes target :=
          ⟨hnodes target htarget, hfound.pending_seen target (htargets target htarget), hlisted⟩
        exact h.reaches target (hfound.open_cases hopen hne) node mem_cons_self
  · intro other hother next hnext
    have hlisted : other ∉ found.order ∧ other ≠ node := by
      simpa [Finishing.leave] using hother.2.2
    exact h.reaches other
      (hfound.open_cases ⟨hother.1, hother.2.1, hlisted.1⟩ hlisted.2) next
      (mem_cons_of_mem _ hnext)

theorem Visited.cons (hnode : node ∈ search.unseen)
    (hfound : Visited edge (search.enter node) (targets node) found)
    (hfinal : Visited edge (found.leave node) rest final) :
    Visited edge search (node :: rest) final := by
  have hsub : final.unseen ⊆ found.unseen := hfinal.unseen_subset
  have hseen : node ∉ final.unseen := fun hunseen => hfound.node_seen (hsub hunseen)
  refine ⟨hsub.trans (hfound.unseen_subset.trans (erase_subset _ _)), ?_, hfinal.nodup,
    ?_, hfinal.settled⟩
  · intro other
    rw [hfinal.mem_order]
    change other ∈ found.order ++ [node] ∨ other ∈ found.unseen ∧ _ ↔ _
    rw [List.mem_append, List.mem_singleton, hfound.mem_order]
    change ((other ∈ search.order ∨ other ∈ search.unseen.erase node ∧ other ∉ found.unseen) ∨
      other = node) ∨ _ ↔ _
    by_cases hother : other = node
    · subst hother
      simp [hnode, hseen]
    · have hsubOther : other ∈ final.unseen → other ∈ found.unseen := fun hin => hsub hin
      have hfoundOther : other ∈ found.unseen → other ∈ search.unseen := fun hin =>
        mem_of_mem_erase (hfound.unseen_subset hin)
      simp only [mem_erase, hother, ne_eq, not_false_eq_true, true_and, or_false]
      tauto
  · intro other hother
    rcases mem_cons.mp hother with hother | hother
    · subst hother
      exact hseen
    · exact hfinal.pending_seen other hother

omit [DecidableEq α] in
theorem Visited.cons_seen (hnode : node ∉ search.unseen) (hfinal : Visited edge search rest final) :
    Visited edge search (node :: rest) final := by
  refine ⟨hfinal.unseen_subset, hfinal.mem_order, hfinal.nodup, ?_, hfinal.settled⟩
  intro other hother
  rcases mem_cons.mp hother with hother | hother
  · subst hother
    exact fun hunseen => hnode (hfinal.unseen_subset hunseen)
  · exact hfinal.pending_seen other hother

/-- **A depth-first search** lists what it enters once each, and every target of a listed
node in front of it or on a way back to it. -/
theorem after_spec (htargets : ∀ node target, target ∈ targets node ↔ edge node target)
    (hnodes : ∀ node target, edge node target → target ∈ nodes)
    (pending : List α) (search : Finishing α) (h : search.Ready edge nodes pending) :
    Visited edge search pending (search.after targets pending) := by
  induction pending, search using visit_induction targets with
  | nil search =>
    rw [after_nil]
    exact ⟨Finset.Subset.refl _, by simp, h.nodup, by simp, h.settled⟩
  | unseen node rest search hnode ihTargets ihRest =>
    rw [after_cons_unseen hnode]
    have hfound := ihTargets (h.enter (fun target => (htargets node target).mp))
    apply Visited.cons hnode hfound
    exact ihRest (h.leave hnode (fun target => (htargets node target).mpr) (hnodes node)
      hfound)
  | seen node rest search hnode ihRest =>
    rw [after_cons_seen hnode]
    exact (ihRest h.tail).cons_seen hnode

end Finishing

/-- **The whole search** lists every node once, and every target of a node in front of it or
on a way back to it. -/
theorem Finishing.whole_spec (htargets : ∀ node target, target ∈ targets node ↔ edge node target)
    {roots : List α} (hroots : roots.Nodup)
    (hedges : ∀ node target, edge node target → target ∈ roots) :
    ((⟨roots.toFinset, []⟩ : Finishing α).after targets roots).order.Perm roots ∧
      Settled edge ((⟨roots.toFinset, []⟩ : Finishing α).after targets roots).order := by
  have hready : (⟨roots.toFinset, []⟩ : Finishing α).Ready edge roots.toFinset roots := by
    refine ⟨nodup_nil, by simp, fun front node back hsplit => by simp at hsplit, ?_⟩
    -- nothing is open yet
    intro node hnode
    exact absurd hnode.1 hnode.2.1
  have hvisited := after_spec htargets
    (fun node target hedge => mem_toFinset.mpr (hedges node target hedge)) roots _ hready
  refine ⟨?_, hvisited.settled⟩
  rw [perm_ext_iff_of_nodup hvisited.nodup hroots]
  intro node
  rw [hvisited.mem_order]
  simp only [not_mem_nil, mem_toFinset, false_or, and_iff_left_iff_imp]
  exact hvisited.pending_seen node

/-! ## §2 The first cycle -/

/-- The nodes that were not entered yet, and those on the way to the current one. -/
structure Tracking (α : Type u) where
  unseen : Finset α
  stack : List α

/-- Visit the pending nodes one after the other and stop at one that is on the stack. -/
def findCycle (targets : α → List α) : (pending : List α) → (search : Tracking α) →
    Except (List α) { unseen : Finset α // unseen ⊆ search.unseen }
  | [], search => .ok ⟨search.unseen, Finset.Subset.refl _⟩
  | node :: rest, search =>
    if node ∈ search.stack then
      .error (search.stack.dropWhile (fun other => other ≠ node) ++ [node])
    else if _hnode : node ∈ search.unseen then
      match findCycle targets (targets node)
          ⟨search.unseen.erase node, search.stack ++ [node]⟩ with
      | .error path => .error path
      | .ok inner =>
        match findCycle targets rest ⟨inner.val, search.stack⟩ with
        | .error path => .error path
        | .ok final =>
          .ok ⟨final.val, final.property.trans (inner.property.trans (Finset.erase_subset _ _))⟩
    else findCycle targets rest search
termination_by pending search => (search.unseen.card, pending.length)
decreasing_by
  · exact Prod.Lex.left _ _ (card_erase_lt_of_mem _hnode)
  · apply Prod.Lex.left
    exact lt_of_le_of_lt (card_le_card inner.property)
      (card_erase_lt_of_mem _hnode)
  · exact Prod.Lex.right _ (Nat.lt_succ_self _)

namespace Tracking

/-- The cycle that a search reports, or what it has not entered at the end. -/
def cycle (search : Tracking α) (targets : α → List α) (pending : List α) :
    Except (List α) (Finset α) :=
  (findCycle targets pending search).map Subtype.val

/-- Put an unseen node on the stack. -/
def enter (search : Tracking α) (node : α) : Tracking α :=
  ⟨search.unseen.erase node, search.stack ++ [node]⟩

variable {search : Tracking α} {node : α}

@[simp] theorem cycle_nil (search : Tracking α) :
    search.cycle targets [] = .ok search.unseen := by
  simp [cycle, findCycle, Except.map]

theorem cycle_cons_open (h : node ∈ search.stack) (rest : List α) :
    search.cycle targets (node :: rest) =
      .error (search.stack.dropWhile (fun other => other ≠ node) ++ [node]) := by
  unfold cycle
  rw [findCycle, if_pos h]
  rfl

theorem cycle_cons_done (hopen : node ∉ search.stack) (h : node ∉ search.unseen) (rest : List α) :
    search.cycle targets (node :: rest) = search.cycle targets rest := by
  unfold cycle
  rw [findCycle, if_neg hopen, dif_neg h]

theorem cycle_cons_unseen (hopen : node ∉ search.stack) (h : node ∈ search.unseen) (rest : List α) :
    search.cycle targets (node :: rest) =
      ((search.enter node).cycle targets (targets node)).bind (fun unseen =>
        (⟨unseen, search.stack⟩ : Tracking α).cycle targets rest) := by
  unfold cycle enter
  rw [findCycle, if_neg hopen, dif_pos h]
  cases findCycle targets (targets node) ⟨search.unseen.erase node, search.stack ++ [node]⟩ with
  | error path => rfl
  | ok inner =>
    simp only [Except.map, Except.bind]
    cases findCycle targets rest ⟨inner.val, search.stack⟩ with
    | error path => rfl
    | ok final => rfl

/-- A search for a cycle enters nodes and gives none back. -/
theorem unseen_subset_of_ok {pending : List α} {unseen : Finset α}
    (h : search.cycle targets pending = .ok unseen) : unseen ⊆ search.unseen := by
  unfold cycle at h
  cases hfound : findCycle targets pending search with
  | error path =>
    rw [hfound] at h
    cases h
  | ok inner =>
    rw [hfound] at h
    cases h
    exact inner.property

/-- What the stack holds while the pending nodes are visited. -/
structure Ready (edge : α → α → Prop) (search : Tracking α) (pending : List α) : Prop where
  chain : search.stack.IsChain edge
  nodup : search.stack.Nodup
  /-- the pending nodes are targets of the node on top -/
  top : ∀ last ∈ search.stack.getLast?, ∀ next ∈ pending, edge last next
  /-- what is neither unseen nor on the stack starts no infinite path -/
  done : ∀ node ∉ search.unseen, node ∉ search.stack → Acc (fun next node => edge node next) node

omit [DecidableEq α] in
theorem Ready.tail {rest : List α} (h : search.Ready edge (node :: rest)) :
    search.Ready edge rest :=
  ⟨h.chain, h.nodup, fun last hlast next hnext =>
    h.top last hlast next (mem_cons_of_mem _ hnext), h.done⟩

theorem Ready.enter {rest : List α} (h : search.Ready edge (node :: rest))
    (hopen : node ∉ search.stack) (htargets : ∀ target ∈ targets node, edge node target) :
    (search.enter node).Ready edge (targets node) := by
  refine ⟨?_, ?_, ?_, ?_⟩
  · apply List.IsChain.append h.chain (isChain_singleton node)
    intro last hlast next hnext
    simp only [head?_cons, Option.mem_some_iff] at hnext
    subst hnext
    exact h.top last hlast node mem_cons_self
  · apply List.Nodup.append h.nodup (nodup_singleton node)
    simpa using hopen
  · intro last hlast target htarget
    simp only [Tracking.enter, getLast?_concat, Option.mem_some_iff] at hlast
    subst hlast
    exact htargets target htarget
  · intro other hseen hother
    simp only [Tracking.enter, mem_erase, List.mem_append, List.mem_singleton, not_and,
      not_or] at hseen hother
    exact h.done other (hseen hother.2) hother.1

/-- The part of the stack from an open node on, closed by that node, is a cycle. -/
theorem Ready.cyclePath {rest : List α} (h : search.Ready edge (node :: rest))
    (hopen : node ∈ search.stack) :
    CyclePath edge (search.stack.dropWhile (fun other => other ≠ node) ++ [node]) := by
  obtain ⟨front, back, hstack⟩ := append_of_mem hopen
  have hnotin : ∀ other ∈ front, other ≠ node := by
    intro other hother heq
    subst heq
    have hnodup := h.nodup
    rw [hstack, nodup_append] at hnodup
    exact hnodup.2.2 other hother other mem_cons_self rfl
  have hdrop : search.stack.dropWhile (fun other => other ≠ node) = node :: back := by
    rw [hstack, dropWhile_append_of_pos (by simpa using hnotin)]
    simp
  rw [hdrop]
  refine ⟨?_, by rw [getLast?_concat]; rfl, ?_, by simp⟩
  · apply List.IsChain.append
    · exact (isChain_append.mp (hstack ▸ h.chain)).2.1
    · exact isChain_singleton node
    · intro last hlast next hnext
      simp only [head?_cons, Option.mem_some_iff] at hnext
      subst hnext
      apply h.top last _ node mem_cons_self
      rw [hstack, getLast?_append_of_ne_nil _ (cons_ne_nil _ _)]
      exact hlast
  · rw [dropLast_concat]
    exact (nodup_append.mp (hstack ▸ h.nodup)).2.1

/-- A search for a cycle can be followed along its recursion. -/
theorem cycle_induction (targets : α → List α) {motive : List α → Tracking α → Prop}
    (nil : ∀ search, motive [] search)
    (opened : ∀ node rest search, node ∈ search.stack → motive (node :: rest) search)
    (unseen : ∀ node rest search, node ∉ search.stack → node ∈ search.unseen →
      motive (targets node) (search.enter node) →
      (∀ unseen, (search.enter node).cycle targets (targets node) = .ok unseen →
        motive rest ⟨unseen, search.stack⟩) →
      motive (node :: rest) search)
    (finished : ∀ node rest search, node ∉ search.stack → node ∉ search.unseen →
      motive rest search → motive (node :: rest) search)
    (pending : List α) (search : Tracking α) : motive pending search := by
  induction pending, search using findCycle.induct targets with
  | case1 search => exact nil search
  | case2 node rest search hopen => exact opened node rest search hopen
  | case3 node rest search hopen hnode path hpath ihTargets =>
    apply unseen node rest search hopen hnode ihTargets
    intro found hfound
    simp [cycle, enter, hpath, Except.map] at hfound
  | case4 node rest search hopen hnode inner hinner path hpath ihTargets ihRest =>
    apply unseen node rest search hopen hnode ihTargets
    intro found hfound
    simp only [cycle, enter, hinner, Except.map, Except.ok.injEq] at hfound
    subst hfound
    exact ihRest
  | case5 node rest search hopen hnode inner hinner final hfinal ihTargets ihRest =>
    apply unseen node rest search hopen hnode ihTargets
    intro found hfound
    simp only [cycle, enter, hinner, Except.map, Except.ok.injEq] at hfound
    subst hfound
    exact ihRest
  | case6 node rest search hopen hnode ihRest =>
    exact finished node rest search hopen hnode ihRest

/-- What a search that found no cycle leaves. -/
structure Clear (edge : α → α → Prop) (search : Tracking α) (pending : List α)
    (unseen : Finset α) : Prop where
  unseen_subset : unseen ⊆ search.unseen
  pending_done : ∀ node ∈ pending, node ∉ unseen ∧ node ∉ search.stack
  done : ∀ node ∉ unseen, node ∉ search.stack → Acc (fun next node => edge node next) node

/-- The targets of a node are visited, so the node itself starts no infinite path. -/
theorem Clear.leave {unseen : Finset α} (h : Clear edge (search.enter node) (targets node) unseen)
    (htargets : ∀ target, edge node target → target ∈ targets node) :
    ∀ other ∉ unseen, other ∉ search.stack → Acc (fun next node => edge node next) other := by
  intro other hseen hopen
  by_cases hne : other = node
  · subst hne
    constructor
    intro target htarget
    obtain ⟨hseenTarget, hopenTarget⟩ := h.pending_done target (htargets target htarget)
    exact h.done target hseenTarget hopenTarget
  · apply h.done other hseen
    simpa [Tracking.enter, hne] using hopen

/-- **A search for a cycle** reports a cycle, or leaves no infinite path from what it
entered. -/
theorem cycle_spec (htargets : ∀ node target, target ∈ targets node ↔ edge node target)
    (pending : List α) (search : Tracking α) (h : search.Ready edge pending) :
    (∃ path, search.cycle targets pending = .error path ∧ CyclePath edge path) ∨
      ∃ unseen, search.cycle targets pending = .ok unseen ∧ Clear edge search pending unseen := by
  induction pending, search using cycle_induction targets with
  | nil search =>
    exact .inr ⟨search.unseen, cycle_nil search, Finset.Subset.refl _, by simp, h.done⟩
  | opened node rest search hopen =>
    exact .inl ⟨_, cycle_cons_open hopen rest, h.cyclePath hopen⟩
  | unseen node rest search hopen hnode ihTargets ihRest =>
    rw [cycle_cons_unseen hopen hnode]
    rcases ihTargets (h.enter hopen (fun target => (htargets node target).mp)) with
      ⟨path, hpath, hcycle⟩ | ⟨found, hfound, hclear⟩
    · left
      exact ⟨path, by rw [hpath]; rfl, hcycle⟩
    · rw [hfound]
      have hdone := hclear.leave (fun target => (htargets node target).mpr)
      have hseen : node ∉ found := fun hin =>
        notMem_erase node search.unseen (hclear.unseen_subset hin)
      rcases ihRest found hfound ⟨h.tail.chain, h.tail.nodup, h.tail.top, hdone⟩ with
        ⟨path, hpath, hcycle⟩ | ⟨final, hfinal, hrest⟩
      · left
        exact ⟨path, hpath, hcycle⟩
      · right
        refine ⟨final, hfinal, hrest.unseen_subset.trans
          (hclear.unseen_subset.trans (erase_subset _ _)), ?_, hrest.done⟩
        intro other hother
        rcases mem_cons.mp hother with hother | hother
        · subst hother
          exact ⟨fun hin => hseen (hrest.unseen_subset hin), hopen⟩
        · exact hrest.pending_done other hother
  | finished node rest search hopen hnode ihRest =>
    rw [cycle_cons_done hopen hnode]
    rcases ihRest h.tail with hcycle | ⟨final, hfinal, hrest⟩
    · exact .inl hcycle
    · right
      refine ⟨final, hfinal, hrest.unseen_subset, ?_, hrest.done⟩
      intro other hother
      rcases mem_cons.mp hother with hother | hother
      · subst hother
        exact ⟨fun hin => hnode (hrest.unseen_subset hin), hopen⟩
      · exact hrest.pending_done other hother

end Tracking

omit [DecidableEq α] in
/-- A graph without infinite paths has no cycle. -/
theorem acyclic_of_acc (h : ∀ node, Acc (fun next node => edge node next) node) :
    Acyclic edge := by
  intro node hcycle
  have hflip : TransGen (fun next node => edge node next) node node :=
    transGen_swap.mp hcycle
  exact (WellFounded.intro h).transGen.asymmetric node node hflip hflip

omit [DecidableEq α] in
/-- **Where only finitely many nodes are reached, the paths of a node end exactly when none of
    them runs into a cycle.** -/
theorem acc_iff_no_cycle {node : α} (hfinite : {other | ReflTransGen edge node other}.Finite) :
    Acc (fun next node => edge node next) node ↔
      ¬ ∃ other, ReflTransGen edge node other ∧ TransGen edge other other := by
  constructor
  · intro hacc ⟨other, hpath, hcycle⟩
    have hother : Acc (fun next node => edge node next) other := by
      clear hcycle
      induction hpath with
      | refl => exact hacc
      | tail _ hedge ih => exact ih.inv hedge
    have hself : ∀ {r : α → α → Prop} {a : α}, Acc r a → ¬ r a a := by
      intro r a ha
      induction ha with
      | intro a _ ih => exact fun haa => ih a haa haa
    exact hself hother.transGen (transGen_swap.mp hcycle)
  · intro hno
    have hfin : Finite {other // ReflTransGen edge node other} := hfinite
    let below := fun a b : {other // ReflTransGen edge node other} =>
      TransGen edge b.1 a.1
    have htrans : IsTrans _ below := ⟨fun a b c hab hbc => hbc.trans hab⟩
    have hirrefl : Std.Irrefl below := ⟨fun a ha => hno ⟨a.1, a.2, ha⟩⟩
    have hall : ∀ a : {other // ReflTransGen edge node other},
        Acc (fun next node => edge node next) a.1 := by
      intro a
      induction a using (Finite.wellFounded_of_trans_of_irrefl below).induction with
      | _ a ih =>
        constructor
        intro next hedge
        exact ih ⟨next, a.2.tail hedge⟩ (.single hedge)
    exact hall ⟨node, .refl⟩

omit [DecidableEq α] in
/-- A cycle path is a cycle. -/
theorem CyclePath.not_acyclic {path : List α} (h : CyclePath edge path) : ¬ Acyclic edge := by
  intro hacyclic
  obtain ⟨hchain, hclosed, -, htwo⟩ := h
  -- the path has a first edge, and its rest leads back to the start
  rcases path with _ | ⟨first, _ | ⟨second, rest⟩⟩
  · simp at htwo
  · simp at htwo
  · obtain ⟨hedge, hrest⟩ := isChain_cons_cons.mp hchain
    have hback : (second :: rest).getLast (cons_ne_nil _ _) = first := by
      simpa [getLast?_eq_getLast_of_ne_nil] using hclosed.symm
    have hreach := relationReflTransGen_of_exists_isChain_cons rest hrest hback
    exact hacyclic first (TransGen.head' hedge hreach)

/-- **The search from all nodes** reports a cycle path, and exactly when there is a cycle. -/
theorem Tracking.whole_spec (htargets : ∀ node target, target ∈ targets node ↔ edge node target)
    {roots : List α} (hedges : ∀ node target, edge node target → node ∈ roots) :
    (∃ path, (⟨roots.toFinset, []⟩ : Tracking α).cycle targets roots = .error path ∧
      CyclePath edge path) ∨
    ((∃ unseen, (⟨roots.toFinset, []⟩ : Tracking α).cycle targets roots = .ok unseen) ∧
      Acyclic edge) := by
  have hready : (⟨roots.toFinset, []⟩ : Tracking α).Ready edge roots := by
    refine ⟨List.IsChain.nil, nodup_nil, by simp, ?_⟩
    -- a node outside has no target
    intro node hnode _
    constructor
    intro target htarget
    exact absurd (mem_toFinset.mpr (hedges node target htarget)) hnode
  rcases cycle_spec htargets roots _ hready with hcycle | ⟨unseen, hok, hclear⟩
  · exact .inl hcycle
  · right
    refine ⟨⟨unseen, hok⟩, acyclic_of_acc (fun node => ?_)⟩
    apply hclear.done node _ not_mem_nil
    intro hin
    have hroot : node ∈ roots := mem_toFinset.mp (hclear.unseen_subset hin)
    exact (hclear.pending_done node hroot).1 hin

/-! ## §3 Filling a table in such an order -/

section Tables

variable {T V : Type} {step : T → α → T} {get : T → α → V}

omit [DecidableEq α] in
/-- Steps of other nodes leave the entry of a node. -/
theorem get_foldl_of_not_mem (hframe : ∀ table node other, other ≠ node →
    get (step table node) other = get table other) {nodes : List α} {node : α}
    (h : node ∉ nodes) (table : T) : get (nodes.foldl step table) node = get table node := by
  induction nodes generalizing table with
  | nil => rfl
  | cons first nodes ih =>
    obtain ⟨hfirst, hrest⟩ := not_or.mp (mt List.mem_cons.mpr h)
    rw [List.foldl_cons, ih hrest, hframe table first node hfirst]

omit [DecidableEq α] in
/-- **Every entry is computed from final entries**: a node's step sees what the whole fold
leaves at its targets, and its own entry as it was at the start. -/
theorem TargetsFirst.foldl_spec {order : List α} (hfirst : TargetsFirst edge order)
    (hnodup : order.Nodup) (hframe : ∀ table node other, other ≠ node →
      get (step table node) other = get table other) (start : T) {node : α}
    (hnode : node ∈ order) :
    ∃ table, get (order.foldl step start) node = get (step table node) node ∧
      get table node = get start node ∧
      ∀ target, edge node target → get table target = get (order.foldl step start) target := by
  obtain ⟨front, back, hsplit⟩ := append_of_mem hnode
  have hparts := hnodup
  rw [hsplit, nodup_append] at hparts
  obtain ⟨-, hback, hdisjoint⟩ := hparts
  have hfold : order.foldl step start =
      back.foldl step (step (front.foldl step start) node) := by
    rw [hsplit, foldl_append, foldl_cons]
  refine ⟨front.foldl step start, ?_, ?_, fun target htarget => ?_⟩
  · rw [hfold, get_foldl_of_not_mem hframe (nodup_cons.mp hback).1]
  · apply get_foldl_of_not_mem hframe
    exact fun hin => hdisjoint node hin node mem_cons_self rfl
  · -- the target is in front, so neither the step nor what follows changes it
    have hin := hfirst front node back hsplit target htarget
    have hout : target ∉ node :: back := fun hmem => hdisjoint target hin target hmem rfl
    rw [hfold, ← foldl_cons, get_foldl_of_not_mem hframe hout]

end Tables

end Typokat.Lib
