import Mathlib.Data.List.Basic
import Mathlib.Logic.Relation
import Mathlib.Tactic.Common

/-!
# Worklists

Loops that compute what a set of starts reaches: they take a node from a list of pending
nodes, put its targets on the list and stop when the list is empty.

## Main Results

- `Worklist.expand`, `Worklist.skip` : what one turn of such a loop keeps
- `Worklist.finish` : with nothing pending, the nodes that are done are the reachable ones
-/

namespace Typokat.Lib

variable {α : Type*} {edge : α → α → Prop} {start pending done pending' done' : α → Prop}

/-- `node` is reachable from one of the starts. -/
def ReachedFrom (edge : α → α → Prop) (start : α → Prop) (node : α) : Prop :=
  ∃ source, start source ∧ Relation.ReflTransGen edge source node

theorem ReachedFrom.tail {node target : α} (h : ReachedFrom edge start node)
    (hedge : edge node target) : ReachedFrom edge start target := by
  obtain ⟨source, hsource, hpath⟩ := h
  exact ⟨source, hsource, hpath.tail hedge⟩

/-- The state of such a loop: `done` are the nodes whose targets are listed. -/
structure Worklist (edge : α → α → Prop) (start pending done : α → Prop) : Prop where
  reached : ∀ node, done node ∨ pending node → ReachedFrom edge start node
  starts : ∀ node, start node → done node ∨ pending node
  closed : ∀ node, done node → ∀ target, edge node target → done target ∨ pending target

namespace Worklist

/-- Before the first turn the starts are pending. -/
theorem initial (hstart : ∀ node, start node ↔ pending node) :
    Worklist edge start pending (fun _ => False) where
  reached node h := by
    rcases h with h | h
    · exact h.elim
    · exact ⟨node, (hstart node).mpr h, .refl⟩
  starts node h := .inr ((hstart node).mp h)
  closed _ h := h.elim

/-- A turn that lists the targets of a pending node. -/
theorem expand (h : Worklist edge start pending done) {node : α} (hnode : pending node)
    (hdone : ∀ other, done' other ↔ done other ∨ other = node)
    (hall : ∀ other, done' other ∨ pending' other ↔
      done other ∨ pending other ∨ edge node other) :
    Worklist edge start pending' done' where
  reached other hother := by
    rcases (hall other).mp hother with hin | hin | hin
    · exact h.reached other (.inl hin)
    · exact h.reached other (.inr hin)
    · exact (h.reached node (.inr hnode)).tail hin
  starts other hother := by
    rw [hall, ← or_assoc]
    exact .inl (h.starts other hother)
  closed other hother target htarget := by
    rw [hall, ← or_assoc]
    rcases (hdone other).mp hother with hin | rfl
    · exact .inl (h.closed other hin target htarget)
    · exact .inr htarget

/-- A turn that drops a node which is done already. -/
theorem skip (h : Worklist edge start pending done) {node : α} (hnode : done node)
    (hpending : ∀ other, pending other ↔ other = node ∨ pending' other) :
    Worklist edge start pending' done := by
  have hall : ∀ other, done other ∨ pending other → done other ∨ pending' other := by
    intro other hother
    rw [hpending] at hother
    rcases hother with hin | rfl | hin
    · exact .inl hin
    · exact .inl hnode
    · exact .inr hin
  refine ⟨fun other hother => ?_, fun other hother => hall other (h.starts other hother),
    fun other hother target htarget => hall target (h.closed other hother target htarget)⟩
  refine h.reached other (hother.imp_right (fun hin => ?_))
  exact (hpending other).mpr (.inr hin)

/-- **Nothing pending**: the loop has found exactly what the starts reach. -/
theorem finish (h : Worklist edge start (fun _ => False) done) (node : α) :
    done node ↔ ReachedFrom edge start node := by
  refine ⟨fun hnode => h.reached node (.inl hnode), ?_⟩
  rintro ⟨source, hsource, hpath⟩
  induction hpath with
  | refl => exact (h.starts source hsource).resolve_right id
  | tail _ hedge ih => exact (h.closed _ ih _ hedge).resolve_right id

end Worklist

end Typokat.Lib
