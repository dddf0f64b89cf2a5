import Mathlib.Order.Lattice
import Mathlib.Algebra.Order.BigOperators.Group.List
import Mathlib.Algebra.BigOperators.Group.List.Basic
import Mathlib.Tactic.Ring

/-!
# Worklist Propagation over a Join-Semilattice

The classical worklist algorithm: a node whose value changed is put on a stack; popping
a node joins its value, transformed for the edge, into each of its parents.  When the
stack is empty the values are the least ones above the initial values that no edge can
raise.

## Main Results

- `propagate_closed` : no edge can raise the result
- `propagate_le` : the result is below every closed assignment above the start
- `propagate_terminates` : fuel for the stack and the remaining height suffices
-/

namespace Typokat.Lib

open List

universe u v

variable {α : Type u} [DecidableEq α] {L : Type v} [SemilatticeSup L] [DecidableEq L]

/-- Join a value into one parent; a parent that changes goes on the stack. -/
def raiseParent (flow : α → L → L) (value : L) (state : List α × (α → L)) (parent : α) :
    List α × (α → L) :=
  let raised := state.2 parent ⊔ flow parent value
  if raised = state.2 parent then state
  else (if parent ∈ state.1 then state.1 else parent :: state.1,
    Function.update state.2 parent raised)

/-- The propagation loop; `none` means that the fuel ran out. -/
def propagate (parents : α → List α) (flow : α → L → L) :
    Nat → List α → (α → L) → Option (α → L)
  | _, [], values => some values
  | 0, _ :: _, _ => none
  | fuel + 1, node :: stack, values =>
    let state := (parents node).foldl (raiseParent flow (values node)) (stack, values)
    propagate parents flow fuel state.1 state.2

/-! ## §1 One parent -/

section Raise

variable {flow : α → L → L} {value : L} {state : List α × (α → L)} {parent : α}

theorem le_raiseParent (node : α) : state.2 node ≤ (raiseParent flow value state parent).2 node := by
  unfold raiseParent
  dsimp only
  split
  · exact le_rfl
  · by_cases h : node = parent
    · subst h
      simp
    · simp [h]

theorem mem_raiseParent {node : α} (h : node ∈ state.1) :
    node ∈ (raiseParent flow value state parent).1 := by
  unfold raiseParent
  dsimp only
  split
  · exact h
  · split
    · exact h
    · exact mem_cons_of_mem _ h

/-- A node whose value changed is on the stack. -/
theorem raiseParent_eq_or_mem (node : α) :
    (raiseParent flow value state parent).2 node = state.2 node ∨
      node ∈ (raiseParent flow value state parent).1 := by
  unfold raiseParent
  dsimp only
  split
  · exact .inl rfl
  · by_cases h : node = parent
    · subst h
      right
      split
      · assumption
      · simp
    · left
      simp [h]

theorem flow_le_raiseParent :
    flow parent value ≤ (raiseParent flow value state parent).2 parent := by
  unfold raiseParent
  dsimp only
  split
  · rename_i h
    exact sup_eq_left.mp h
  · simp

theorem raiseParent_le {bound : α → L} (hvalues : ∀ node, state.2 node ≤ bound node)
    (hflow : flow parent value ≤ bound parent) (node : α) :
    (raiseParent flow value state parent).2 node ≤ bound node := by
  unfold raiseParent
  dsimp only
  split
  · exact hvalues node
  · by_cases h : node = parent
    · subst h
      simpa using ⟨hvalues node, hflow⟩
    · simpa [h] using hvalues node

/-- The stack only ever gains the parent itself. -/
theorem mem_of_mem_raiseParent {node : α} (h : node ∈ (raiseParent flow value state parent).1) :
    node ∈ state.1 ∨ node = parent := by
  unfold raiseParent at h
  dsimp only at h
  split at h
  · exact .inl h
  · split at h
    · exact .inl h
    · rcases mem_cons.mp h with rfl | h
      · exact .inr rfl
      · exact .inl h

end Raise

/-! ## §2 All parents of a node -/

section RaiseAll

variable (flow : α → L → L) (value : L)

theorem foldl_raiseParent_spec (ps : List α) :
    ∀ state : List α × (α → L),
      (∀ node, state.2 node ≤ (ps.foldl (raiseParent flow value) state).2 node) ∧
      (∀ node, node ∈ state.1 → node ∈ (ps.foldl (raiseParent flow value) state).1) ∧
      (∀ node, (ps.foldl (raiseParent flow value) state).2 node = state.2 node ∨
        node ∈ (ps.foldl (raiseParent flow value) state).1) ∧
      (∀ parent ∈ ps, flow parent value ≤ (ps.foldl (raiseParent flow value) state).2 parent) ∧
      (∀ node, node ∈ (ps.foldl (raiseParent flow value) state).1 → node ∈ state.1 ∨ node ∈ ps) := by
  induction ps with
  | nil =>
    intro state
    exact ⟨fun _ => le_rfl, fun _ h => h, fun _ => .inl rfl, fun _ h => by simp at h,
      fun _ h => .inl h⟩
  | cons p ps ih =>
    intro state
    obtain ⟨hle, hmem, hchange, hflow, hback⟩ := ih (raiseParent flow value state p)
    refine ⟨fun node => (le_raiseParent node).trans (hle node),
      fun node h => hmem node (mem_raiseParent h), fun node => ?_, fun parent h => ?_,
      fun node h => ?_⟩
    · rcases hchange node with h | h
      · have hstep : (raiseParent flow value state p).2 node = state.2 node ∨
            node ∈ (raiseParent flow value state p).1 := raiseParent_eq_or_mem node
        rcases hstep with h' | h'
        · exact .inl (h.trans h')
        · exact .inr (hmem node h')
      · exact .inr h
    · rcases mem_cons.mp h with rfl | h
      · exact flow_le_raiseParent.trans (hle parent)
      · exact hflow parent h
    · rcases hback node h with h | h
      · rcases mem_of_mem_raiseParent h with h | rfl
        · exact .inl h
        · exact .inr (by simp)
      · exact .inr (mem_cons_of_mem _ h)

theorem foldl_raiseParent_le {bound : α → L} (ps : List α) :
    ∀ state : List α × (α → L), (∀ node, state.2 node ≤ bound node) →
      (∀ parent ∈ ps, flow parent value ≤ bound parent) →
      ∀ node, (ps.foldl (raiseParent flow value) state).2 node ≤ bound node := by
  induction ps with
  | nil => exact fun state h _ => h
  | cons p ps ih =>
    intro state hvalues hflow
    exact ih _ (raiseParent_le hvalues (hflow p (by simp)))
      (fun parent h => hflow parent (mem_cons_of_mem _ h))

end RaiseAll

/-! ## §3 The loop -/

variable {parents : α → List α} {flow : α → L → L}

/-- No edge out of the node can raise a parent. -/
def ClosedAt (parents : α → List α) (flow : α → L → L) (values : α → L) (node : α) : Prop :=
  ∀ parent ∈ parents node, flow parent (values node) ≤ values parent

/-- **No edge can raise the result.** -/
theorem propagate_closed {fuel : Nat} {stack : List α} {values result : α → L}
    (h : propagate parents flow fuel stack values = some result)
    (hclosed : ∀ node, node ∉ stack → ClosedAt parents flow values node) :
    (∀ node, values node ≤ result node) ∧ ∀ node, ClosedAt parents flow result node := by
  induction fuel generalizing stack values with
  | zero =>
    cases stack with
    | nil =>
      cases h
      exact ⟨fun _ => le_rfl, fun node => hclosed node (by simp)⟩
    | cons => cases h
  | succ fuel ih =>
    cases stack with
    | nil =>
      cases h
      exact ⟨fun _ => le_rfl, fun node => hclosed node (by simp)⟩
    | cons node stack =>
      obtain ⟨hle, hmem, hchange, hflow, _⟩ :=
        foldl_raiseParent_spec flow (values node) (parents node) (stack, values)
      obtain ⟨hup, hout⟩ := ih h (by
        intro other hother parent hparent
        -- a node off the new stack kept its value
        have hsame := (hchange other).resolve_right hother
        rw [hsame]
        by_cases hn : other = node
        · subst hn
          exact hflow parent hparent
        · have hoff : other ∉ node :: stack := by
            simp only [mem_cons, not_or]
            exact ⟨hn, fun hs => hother (hmem other hs)⟩
          exact (hclosed other hoff parent hparent).trans (hle parent))
      exact ⟨fun n => (hle n).trans (hup n), hout⟩

/-- **The result is the least closed assignment above the start.** -/
theorem propagate_le {fuel : Nat} {stack : List α} {values result bound : α → L}
    (h : propagate parents flow fuel stack values = some result)
    (hmono : ∀ parent, Monotone (flow parent)) (hvalues : ∀ node, values node ≤ bound node)
    (hbound : ∀ node, ClosedAt parents flow bound node) (node : α) :
    result node ≤ bound node := by
  induction fuel generalizing stack values with
  | zero =>
    cases stack with
    | nil =>
      cases h
      exact hvalues node
    | cons => cases h
  | succ fuel ih =>
    cases stack with
    | nil =>
      cases h
      exact hvalues node
    | cons top stack =>
      refine ih h (foldl_raiseParent_le flow (values top) (parents top) (stack, values) hvalues ?_)
      exact fun parent hparent => (hmono parent (hvalues top)).trans (hbound top parent hparent)

/-! ## §4 Termination -/

section Termination

variable (height : L → Nat) (nodes : List α) (ceiling : α → L)

/-- How much the values of the nodes can still rise. -/
def remainingHeight (values : α → L) : Nat :=
  (nodes.map (fun node => height (ceiling node) - height (values node))).sum

omit [DecidableEq L] in
theorem remainingHeight_update_lt (hstrict : StrictMono height) {values : α → L} {node : α}
    {raised : L} (hnode : node ∈ nodes) (hlt : values node < raised)
    (hceiling : raised ≤ ceiling node) :
    remainingHeight height nodes ceiling (Function.update values node raised)
      < remainingHeight height nodes ceiling values := by
  refine sum_lt_sum _ _ (fun n _ => ?_) ⟨node, hnode, ?_⟩
  · by_cases h : n = node
    · subst h
      have := hstrict hlt
      simp only [Function.update_self]
      omega
    · simp [h]
  · have h₁ := hstrict hlt
    have h₂ := hstrict.monotone hceiling
    simp only [Function.update_self]
    omega

/-- Raising one parent pays for its place on the stack. -/
theorem budget_raiseParent_le (hstrict : StrictMono height) {value : L} {state : List α × (α → L)}
    {parent : α} (hparent : parent ∈ nodes) (hvalues : state.2 parent ≤ ceiling parent)
    (hflow : flow parent value ≤ ceiling parent) :
    (raiseParent flow value state parent).1.length
        + remainingHeight height nodes ceiling (raiseParent flow value state parent).2
      ≤ state.1.length + remainingHeight height nodes ceiling state.2 := by
  unfold raiseParent
  dsimp only
  split
  · exact le_rfl
  · rename_i hne
    have hlt : state.2 parent < state.2 parent ⊔ flow parent value :=
      lt_of_le_of_ne le_sup_left (Ne.symm hne)
    have hdrop := remainingHeight_update_lt height nodes ceiling hstrict hparent hlt
      (sup_le hvalues hflow)
    split <;> simp only [length_cons] <;> omega

theorem budget_foldl_le (hstrict : StrictMono height) {value : L} (ps : List α) :
    ∀ state : List α × (α → L), (∀ p ∈ ps, p ∈ nodes) → (∀ node, state.2 node ≤ ceiling node) →
      (∀ p ∈ ps, flow p value ≤ ceiling p) →
      (ps.foldl (raiseParent flow value) state).1.length
          + remainingHeight height nodes ceiling (ps.foldl (raiseParent flow value) state).2
        ≤ state.1.length + remainingHeight height nodes ceiling state.2 := by
  induction ps with
  | nil => exact fun _ _ _ _ => le_rfl
  | cons p ps ih =>
    intro state hps hvalues hflow
    have hhead := budget_raiseParent_le height nodes ceiling hstrict (hps p (by simp))
      (hvalues p) (hflow p (by simp))
    exact (ih _ (fun q hq => hps q (mem_cons_of_mem _ hq))
      (raiseParent_le hvalues (hflow p (by simp)))
      (fun q hq => hflow q (mem_cons_of_mem _ hq))).trans hhead

/-- **Fuel for the stack and the remaining height suffices.** -/
theorem propagate_terminates (hstrict : StrictMono height)
    (hmono : ∀ parent, Monotone (flow parent))
    (hparents : ∀ node, ∀ parent ∈ parents node, parent ∈ nodes)
    (hceiling : ∀ node, ClosedAt parents flow ceiling node) :
    ∀ (fuel : Nat) (stack : List α) (values : α → L), (∀ node, values node ≤ ceiling node) →
      stack.length + remainingHeight height nodes ceiling values ≤ fuel →
      ∃ result, propagate parents flow fuel stack values = some result := by
  intro fuel
  induction fuel with
  | zero =>
    intro stack values _ hfuel
    cases stack with
    | nil => exact ⟨values, rfl⟩
    | cons =>
      simp only [length_cons] at hfuel
      omega
  | succ fuel ih =>
    intro stack values hvalues hfuel
    cases stack with
    | nil => exact ⟨values, rfl⟩
    | cons node stack =>
      have hflow : ∀ parent ∈ parents node, flow parent (values node) ≤ ceiling parent :=
        fun parent hp => (hmono parent (hvalues node)).trans (hceiling node parent hp)
      have hbudget := budget_foldl_le height nodes ceiling hstrict (parents node) (stack, values)
        (hparents node) hvalues hflow
      refine ih _ _ (foldl_raiseParent_le flow _ (parents node) (stack, values) hvalues hflow) ?_
      simp only [length_cons] at hfuel
      simp only at hbudget
      omega

end Termination

end Typokat.Lib
