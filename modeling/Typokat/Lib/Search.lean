import Mathlib.Algebra.BigOperators.Group.Finset.Basic
import Mathlib.Algebra.Order.BigOperators.Group.Finset
import Mathlib.Data.Finset.Card

/-!
# Searching a Graph

A search with a stack of pending nodes and a set of visited ones, which stops at the first node
that it looks for.

## Main Results

- `searchGraph_isSome` : with enough fuel the search answers
-/

namespace Typokat.Lib

variable {α : Type*} [DecidableEq α]

/-- The search, with the top of the stack first; `none` when the fuel is used up. -/
def searchGraph (targets : α → List α) (found : α → Bool) :
    Nat → List α → Finset α → Option Bool
  | 0, _, _ => none
  | fuel + 1, pending, visited =>
    match pending with
    | [] => some false
    | node :: rest =>
      if node ∈ visited then searchGraph targets found fuel rest visited
      else if found node then some true
      else searchGraph targets found fuel ((targets node).reverse ++ rest) (insert node visited)

/-- The edges of the nodes that are not visited. -/
def unvisitedEdges (targets : α → List α) (domain visited : Finset α) : Nat :=
  ∑ node ∈ domain \ visited, (targets node).length

/-- A visited node takes its edges along. -/
theorem unvisitedEdges_insert {targets : α → List α} {domain visited : Finset α}
    (hdomain : ∀ node ∉ domain, targets node = []) {node : α} (hnode : node ∉ visited) :
    unvisitedEdges targets domain (insert node visited) + (targets node).length
      = unvisitedEdges targets domain visited := by
  unfold unvisitedEdges
  rw [Finset.sdiff_insert]
  by_cases hin : node ∈ domain
  · rw [Finset.sum_erase_add _ _ (Finset.mem_sdiff.mpr ⟨hin, hnode⟩)]
  · rw [hdomain node hin, List.length_nil, Nat.add_zero, Finset.erase_eq_of_notMem]
    intro hmem
    exact hin (Finset.mem_sdiff.mp hmem).1

/-- **With enough fuel the search answers.** -/
theorem searchGraph_isSome {targets : α → List α} {found : α → Bool} {domain : Finset α}
    (hdomain : ∀ node ∉ domain, targets node = []) {fuel : Nat} {pending : List α}
    {visited : Finset α}
    (hfuel : pending.length + unvisitedEdges targets domain visited < fuel) :
    (searchGraph targets found fuel pending visited).isSome = true := by
  induction fuel generalizing pending visited with
  | zero => exact absurd hfuel (Nat.not_lt_zero _)
  | succ fuel ih =>
    unfold searchGraph
    cases pending with
    | nil => rfl
    | cons node rest =>
      dsimp only
      rw [List.length_cons] at hfuel
      split
      · exact ih (by omega)
      · rename_i hnode
        split
        · rfl
        · apply ih
          have hedges := unvisitedEdges_insert hdomain hnode
          rw [List.length_append, List.length_reverse]
          omega

end Typokat.Lib
