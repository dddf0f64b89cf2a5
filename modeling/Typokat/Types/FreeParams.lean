import Typokat.Lib.Dataflow
import Typokat.Types.Interner

/-!
# Application Summaries (`typokat-types/src/types/substitute/mod.rs`)

Which declaration parameters occur free below a row, and whether a substitution at the
row can keep mapper entries beyond them.  Both are one fixed point over the child edges
that a substitution follows: a discovery loop collects the graph below the root down to
the rows with a cached summary, then the worklist of `Lib.Dataflow` closes it.

## Main Definitions

- `Row.applyChildren` : the edges a substitution follows
- `computeApplicationSummaries` : the summary of a root, published for all it discovers
-/

namespace Typokat.Types

/-! ## §1 The graph a substitution follows -/

/-- `for_each_apply_child`: the child ids the `apply_*` arms recurse into, in order. -/
def Row.applyChildren : Row → List TypeId
  | .intrinsic _ => []
  | .literal _ => []
  | .typeParam _ => []
  | .infer _ => []
  | .mappedValue => []
  | .declared body => body.mapper.map (fun entry => entry.2)
  | .object body =>
    body.properties.flatMap (fun property => property.ty :: property.writeTy.toList)
      ++ body.stringIndex.toList ++ body.numberIndex.toList
      ++ body.callSignatures ++ body.constructSignatures
  | .function body =>
    body.typeParams.flatMap (fun param => param.constraint.toList ++ param.default.toList)
      ++ body.params.map (fun param => param.ty) ++ body.receiver.toList ++ [body.ret]
  | .union members => members
  | .intersection members => members
  | .array element => [element]
  | .tuple body => body.elements ++ body.rest.toList.map (fun rest => rest.ty)
  | .readonly operand => [operand]
  | .keyof operand => [operand]
  | .deferredIndexedAccess body => [body.object, body.index]
  | .template body => body.holes
  | .conditional body => [body.check, body.extendsTy, body.trueBranch, body.falseBranch]
  -- only the argument values, never the base
  | .instantiation body => body.args.map (fun arg => arg.2)
  | .classInstance body => body.args
  | .mapped body => body.keySource :: body.valueTemplate :: body.modifiersSource.toList

/-- The binders a function row introduces. -/
def Row.binders : Row → List TypeParamId
  | .function body => body.typeParams.map (fun param => param.id)
  | _ => []

/-- `retains_full_mapper`: the rows whose distribution guard embeds the whole map. -/
def Row.retainsFullMapper : Row → Bool
  | .conditional body => body.distributive && !body.poisoned
  | .mapped body => body.homomorphic
  | _ => false

namespace Store

/-- The parameters that occur at the row itself. -/
def ownParameters (s : Store) : Row → List TypeParamId
  | .typeParam param => [param.id]
  | .declared body =>
    match s.declaredRecipe body.recipe with
    | some recipe =>
      recipe.freeParams.filter (fun p => decide (p ∉ body.mapper.map (fun entry => entry.1)))
    | none => []
  | _ => []

/-- The binders of an id. -/
def nodeBinders (s : Store) (ty : TypeId) : List TypeParamId :=
  ((s.row ty).map Row.binders).getD []

end Store

/-! ## §2 The fixed point -/

/-- Free parameters and mapper retention of one id. -/
abbrev SummaryValue := FxHashSet TypeParamId × Bool

instance : SemilatticeSup SummaryValue :=
  @Prod.instSemilatticeSup _ _ _ Bool.instDistribLattice.toLattice.toSemilatticeSup

/-- What a child contributes to its parent. -/
def Store.summaryFlow (s : Store) (parent : TypeId) (value : SummaryValue) : SummaryValue :=
  (value.1.filter (fun p => p ∉ s.nodeBinders parent), value.2)

/-- `ApplicationSummary`. -/
structure ApplicationSummary where
  freeParams : List TypeParamId
  keyMode : ApplicationKeyMode
  deriving DecidableEq, Repr

/-- The key mode of a retention flag. -/
def ApplicationKeyMode.ofFlag (retains : Bool) : ApplicationKeyMode :=
  if retains then .fullMap else .relevantOnly

def ApplicationSummary.value (summary : ApplicationSummary) : SummaryValue :=
  (summary.freeParams.toFinset, summary.keyMode == .fullMap)

def SummaryValue.summary (value : SummaryValue) : ApplicationSummary :=
  ⟨FxHashSet.sorted value.1, ApplicationKeyMode.ofFlag value.2⟩

/-- The state of the discovery loop; `pending` is a stack with its top first. -/
structure Discovery where
  pending : List TypeId
  discovered : List TypeId
  parents : TypeId → List TypeId
  values : TypeId → SummaryValue

/-- The parameters that occur in any initial value. -/
def Discovery.parameters (state : Discovery) : FxHashSet TypeParamId :=
  state.discovered.toFinset.biUnion (fun ty => (state.values ty).1)

namespace Interner

variable (interner : Interner)

/-- The summary both caches hold for an id. -/
def cachedSummary (ty : TypeId) : Option ApplicationSummary :=
  match (interner.freeParamSummary ty).1, (interner.applicationKeyMode ty).1 with
  | some freeParams, some keyMode => some ⟨freeParams, keyMode⟩
  | _, _ => none

/-- One child of the popped id: a cached summary is folded in at once, any other child
    becomes an edge of the graph. -/
def visitChild (ty : TypeId) (state : Discovery) (child : TypeId) :
    Discovery :=
  match interner.cachedSummary child with
  | some summary =>
    { state with
      values := Function.update state.values ty
        (state.values ty ⊔ interner.store.summaryFlow ty summary.value) }
  | none =>
    let parents := Function.update state.parents child (state.parents child ++ [ty])
    if child ∈ state.discovered then { state with parents }
    else { state with
      parents
      pending := child :: state.pending
      discovered := child :: state.discovered }

/-- The discovery loop; an id without a row is the panic of the tag column. -/
def discover (interner : Interner) : Nat → Discovery → Option Discovery
  | fuel, state =>
    match state.pending with
    | [] => some state
    | ty :: pending =>
      match fuel, interner.store.row ty with
      | fuel + 1, some row =>
        let own : SummaryValue :=
          ((interner.store.ownParameters row).toFinset, row.retainsFullMapper)
        let state := { state with
          pending
          values := Function.update state.values ty (state.values ty ⊔ own) }
        interner.discover fuel (row.applyChildren.foldl (interner.visitChild ty) state)
      | _, _ => none

/-- The fixed point over the discovered graph. -/
def closeSummaries (state : Discovery) : Option (TypeId → SummaryValue) :=
  let stack := state.discovered.filter (fun ty => decide (state.values ty ≠ (∅, false)))
  let nodes := state.discovered.length
  Lib.propagate state.parents interner.store.summaryFlow
    (nodes + nodes * (state.parameters.card + 1)) stack state.values

/-- `compute_application_summaries`. -/
def computeApplicationSummaries (root : TypeId) :
    Option (ApplicationSummary × Interner) :=
  -- both lookups align their cache with the graph
  let interner := (interner.freeParamSummary root).2
  let interner := (interner.applicationKeyMode root).2
  match interner.cachedSummary root with
  | some summary => some (summary, interner)
  | none => do
    let state ← interner.discover (interner.store.len + 1)
      { pending := [root], discovered := [root], parents := fun _ => [],
        values := fun _ => (∅, false) }
    let values ← interner.closeSummaries state
    let summaryOf := fun ty => SummaryValue.summary (values ty)
    let summaries := state.discovered.map (fun ty => (ty, (summaryOf ty).freeParams))
    let modes := state.discovered.map (fun ty => (ty, (summaryOf ty).keyMode))
    some (summaryOf root,
      (interner.publishFreeParamSummaries summaries).publishApplicationKeyModes modes)

/-- `derived_free_params`. -/
def derivedFreeParams (ty : TypeId) :
    Option (List TypeParamId × Interner) :=
  (interner.computeApplicationSummaries ty).map (fun result => (result.1.freeParams, result.2))

end Interner

end Typokat.Types
