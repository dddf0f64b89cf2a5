import Mathlib.Data.Finset.Card
import Typokat.Lib.Worklist

/-!
# Searching a Way Back

A search for a way from a node back to itself.  It keeps a stack of nodes to visit and the
set of nodes that were ever put on it; every target is looked at when its source is taken
from the stack, and the search stops at the first one that is the start again.

## Main Results

- `visitNext_spec` : what looking at the targets of one node does
- `revisits_spec` : with enough fuel the search answers, and it answers whether there is a
  way back
-/

namespace Typokat.Lib

open List

variable {α : Type*} [DecidableEq α] {start : α}

/-- Look at the targets of a node: `none` when the start is among them, and else the nodes
    seen and the stack after putting the new ones on it. -/
def visitNext (start : α) : List α → Finset α → List α → Option (Finset α × List α)
  | [], visited, stack => some (visited, stack)
  | next :: rest, visited, stack =>
    if next = start then none
    else if next ∈ visited then visitNext start rest visited stack
    else visitNext start rest (insert next visited) (stack ++ [next])

/-- The search; `none` when the fuel is used up. -/
def revisitsLoop (targets : α → List α) (start : α) :
    Nat → Finset α → List α → Option Bool
  | 0, _, _ => none
  | fuel + 1, visited, stack =>
    match stack.getLast? with
    | none => some false
    | some node =>
      match visitNext start (targets node) visited stack.dropLast with
      | none => some true
      | some (visited, stack) => revisitsLoop targets start fuel visited stack

/-- Whether the start can be reached from itself. -/
def revisits (targets : α → List α) (start : α) (fuel : Nat) : Option Bool :=
  revisitsLoop targets start fuel ∅ [start]

/-- **What looking at the targets of one node does.** -/
theorem visitNext_spec (start : α) (targets : List α) (visited : Finset α) (stack : List α) :
    match visitNext start targets visited stack with
    | none => start ∈ targets
    | some (visited', stack') => start ∉ targets ∧
        (∀ node, node ∈ visited' ↔ node ∈ visited ∨ node ∈ targets) ∧
        (∀ node, node ∈ stack' ↔ node ∈ stack ∨ node ∈ targets ∧ node ∉ visited) ∧
        ∀ nodes : Finset α, (∀ node ∈ targets, node ∈ nodes) →
          stack'.length + (nodes \ visited').card = stack.length + (nodes \ visited).card := by
  induction targets generalizing visited stack with
  | nil => simp [visitNext]
  | cons next rest ih =>
    unfold visitNext
    by_cases hstart : next = start
    · rw [if_pos hstart]
      simp [hstart]
    · rw [if_neg hstart]
      by_cases hseen : next ∈ visited
      · rw [if_pos hseen]
        have hrest := @ih visited stack
        split at hrest
        · exact mem_cons_of_mem _ hrest
        · obtain ⟨hno, hvisited, hstack, hcount⟩ := hrest
          refine ⟨?_, ?_, ?_, ?_⟩
          · simp [hno, Ne.symm hstart]
          · intro node
            rw [hvisited, mem_cons]
            constructor
            · tauto
            · intro h
              rcases h with h | rfl | h
              · exact .inl h
              · exact .inl hseen
              · exact .inr h
          · intro node
            rw [hstack, mem_cons]
            constructor
            · tauto
            · intro h
              rcases h with h | ⟨rfl | h, hnew⟩
              · exact .inl h
              · exact absurd hseen hnew
              · exact .inr ⟨h, hnew⟩
          · intro nodes hnodes
            exact hcount nodes (fun node hnode => hnodes node (mem_cons_of_mem _ hnode))
      · rw [if_neg hseen]
        have hrest := @ih (insert next visited) (stack ++ [next])
        split at hrest
        · exact mem_cons_of_mem _ hrest
        · obtain ⟨hno, hvisited, hstack, hcount⟩ := hrest
          refine ⟨?_, ?_, ?_, ?_⟩
          · simp [hno, Ne.symm hstart]
          · intro node
            rw [hvisited, Finset.mem_insert, mem_cons]
            tauto
          · intro node
            rw [hstack, mem_append, mem_singleton, Finset.mem_insert, mem_cons]
            by_cases hnode : node = next
            · simp [hnode, hseen]
            · simp [hnode]
          · intro nodes hnodes
            have hin : next ∈ nodes \ visited := by
              rw [Finset.mem_sdiff]
              exact ⟨hnodes next mem_cons_self, hseen⟩
            -- the new node is seen and on the stack
            have hcard : (nodes \ visited).card = (nodes \ insert next visited).card + 1 := by
              rw [Finset.sdiff_insert, Finset.card_erase_add_one hin]
            have hcount := hcount nodes
              (fun node hnode => hnodes node (mem_cons_of_mem _ hnode))
            rw [length_append, length_singleton] at hcount
            omega

/-- The search between two turns: what was taken from the stack has no way to the start. -/
structure Searching (edge : α → α → Prop) (start : α) (visited : Finset α) (stack : List α)
    (done : α → Prop) : Prop where
  worklist : Worklist edge (fun node => node = start) (fun node => node ∈ stack) done
  mem_visited : ∀ node, node ∈ visited → node ∈ stack ∨ done node
  seen : ∀ node, node ∈ stack ∨ done node → node ∈ visited ∨ node = start
  no_way_back : ∀ node, done node → ¬ edge node start

theorem revisitsLoop_spec {targets : α → List α} {edge : α → α → Prop}
    (htargets : ∀ node target, target ∈ targets node ↔ edge node target) {nodes : Finset α}
    (hnodes : ∀ node target, edge node target → target ∈ nodes) {fuel : Nat}
    {visited : Finset α} {stack : List α} (done : α → Prop)
    (h : Searching edge start visited stack done)
    (hfuel : stack.length + (nodes \ visited).card < fuel) :
    ∃ answer, revisitsLoop targets start fuel visited stack = some answer ∧
      (answer = true ↔ Relation.TransGen edge start start) := by
  induction fuel generalizing visited stack done with
  | zero => omega
  | succ fuel ih =>
    rcases eq_nil_or_concat stack with rfl | ⟨front, node, rfl⟩
    · -- everything that is reached is done
      refine ⟨false, rfl, ?_⟩
      have hfinish := h.worklist
      simp only [not_mem_nil] at hfinish
      constructor
      · intro hfalse
        cases hfalse
      · intro hcycle
        obtain ⟨last, hpath, hedge⟩ := Relation.TransGen.tail'_iff.mp hcycle
        have hlast := (hfinish.finish last).mpr ⟨start, rfl, hpath⟩
        exact absurd hedge (h.no_way_back last hlast)
    · rw [concat_eq_append] at h hfuel ⊢
      have hlast : (front ++ [node]).getLast? = some node := by simp
      have hfront : (front ++ [node]).dropLast = front := by simp
      have hspec := visitNext_spec start (targets node) visited front
      unfold revisitsLoop
      rw [hlast, hfront]
      dsimp only
      cases hnext : visitNext start (targets node) visited front with
      | none =>
        rw [hnext] at hspec
        -- an edge back to the start closes the cycle
        obtain ⟨source, rfl, hpath⟩ := h.worklist.reached node (.inr (by simp))
        exact ⟨true, rfl, fun _ => .tail' hpath ((htargets node _).mp hspec), fun _ => rfl⟩
      | some pair =>
        obtain ⟨visited', stack'⟩ := pair
        rw [hnext] at hspec
        obtain ⟨hno, hvisited, hstack, hcount⟩ := hspec
        have hno' : ¬ edge node start := fun hedge => hno ((htargets node start).mpr hedge)
        have hcount := hcount nodes (fun target htarget =>
          hnodes node target ((htargets node target).mp htarget))
        apply ih (fun other => done other ∨ other = node)
        · constructor
          · apply h.worklist.expand (show node ∈ front ++ [node] by simp) (fun other => Iff.rfl)
            intro other
            rw [hstack, ← htargets, mem_append, mem_singleton]
            constructor
            · tauto
            · intro hother
              rcases hother with hother | (hother | hother) | hother
              · exact .inl (.inl hother)
              · exact .inr (.inl hother)
              · exact .inl (.inr hother)
              · -- a target that was seen is on the stack or done already
                by_cases hseen : other ∈ visited
                · rcases h.mem_visited other hseen with hin | hin
                  · rw [mem_append, mem_singleton] at hin
                    rcases hin with hin | hin
                    · exact .inr (.inl hin)
                    · exact .inl (.inr hin)
                  · exact .inl (.inl hin)
                · exact .inr (.inr ⟨hother, hseen⟩)
          · intro other hother
            rw [hstack]
            rcases (hvisited other).mp hother with hin | hin
            · rcases h.mem_visited other hin with hin | hin
              · rw [mem_append, mem_singleton] at hin
                tauto
              · exact .inr (.inl hin)
            · by_cases hseen : other ∈ visited
              · rcases h.mem_visited other hseen with hin' | hin'
                · rw [mem_append, mem_singleton] at hin'
                  tauto
                · exact .inr (.inl hin')
              · exact .inl (.inr ⟨hin, hseen⟩)
          · intro other hother
            rw [hvisited]
            rw [hstack] at hother
            have hseen := h.seen other
            rw [mem_append, mem_singleton] at hseen
            tauto
          · intro other hother
            rcases hother with hother | rfl
            · exact h.no_way_back other hother
            · exact hno'
        · rw [length_append, length_singleton] at hfuel
          omega

/-- **The search answers whether the start has a way back to itself.** -/
theorem revisits_spec (nodes : Finset α) {targets : α → List α} {edge : α → α → Prop}
    (htargets : ∀ node target, target ∈ targets node ↔ edge node target)
    (hnodes : ∀ node target, edge node target → target ∈ nodes) {fuel : Nat}
    (hfuel : nodes.card + 1 < fuel) :
    ∃ answer, revisits targets start fuel = some answer ∧
      (answer = true ↔ Relation.TransGen edge start start) := by
  apply revisitsLoop_spec htargets hnodes (fun _ => False)
  · constructor
    · apply Worklist.initial
      intro node
      simp
    · simp
    · simp
    · intro node hnode
      exact hnode.elim
  · rw [length_singleton, Finset.sdiff_empty]
    omega

end Typokat.Lib
