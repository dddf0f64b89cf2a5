import Typokat.Lib.Search
import Typokat.Types.Interner

/-!
# Binder Contexts (`typokat-relate/src/relate/relation/mod.rs`)

Below a pair of generic signatures the type parameters have a local meaning: the parameters of
the two signatures are aligned, or those of the source are specialized to what they meet.  The
contexts form a stack, the innermost one first here.
-/

namespace Typokat.Relate

open Types

/-! ## §1 Contexts -/

/-- `BinderRelationContext`. -/
structure BinderRelationContext where
  parameters : FxHashSet TypeParamId := ∅
  sourceParameters : FxHashSet TypeParamId := ∅
  targetParameters : FxHashSet TypeParamId := ∅
  constraints : FxHashMap TypeParamId (Option TypeId) := ∅
  sourceToTarget : FxHashMap TypeParamId TypeParamId := ∅
  targetToSource : FxHashMap TypeParamId TypeParamId := ∅
  instantiableSource : FxHashSet TypeParamId := ∅
  sourceInstantiations : FxHashMap TypeParamId TypeId := ∅

namespace BinderRelationContext

/-- One turn of the loop of `aligned`. -/
def align (context : BinderRelationContext) (pair : GenericTypeParam × GenericTypeParam) :
    BinderRelationContext :=
  { context with
    parameters := insert pair.2.id (insert pair.1.id context.parameters)
    sourceParameters := insert pair.1.id context.sourceParameters
    targetParameters := insert pair.2.id context.targetParameters
    constraints := (context.constraints.insert pair.1.id pair.1.constraint).insert pair.2.id
      pair.2.constraint
    sourceToTarget := context.sourceToTarget.insert pair.1.id pair.2.id
    targetToSource := context.targetToSource.insert pair.2.id pair.1.id }

/-- `BinderRelationContext::aligned`. -/
def aligned (source target : List GenericTypeParam) : BinderRelationContext :=
  (source.zip target).foldl align {}

/-- A parameter of the source that can be specialized. -/
def addInstantiable (context : BinderRelationContext) (param : GenericTypeParam) :
    BinderRelationContext :=
  { context with
    parameters := insert param.id context.parameters
    sourceParameters := insert param.id context.sourceParameters
    constraints := context.constraints.insert param.id param.constraint
    instantiableSource := insert param.id context.instantiableSource }

/-- A parameter of the target that is only constrained. -/
def addConstrained (context : BinderRelationContext) (param : GenericTypeParam) :
    BinderRelationContext :=
  { context with
    parameters := insert param.id context.parameters
    targetParameters := insert param.id context.targetParameters
    constraints := context.constraints.insert param.id param.constraint }

/-- `BinderRelationContext::source_specialization`. -/
def sourceSpecialization (source : List GenericTypeParam) : BinderRelationContext :=
  source.foldl addInstantiable {}

/-- `BinderRelationContext::construct_arity_specialization`. -/
def constructAritySpecialization (source target : List GenericTypeParam) :
    BinderRelationContext :=
  let shared := min source.length target.length
  let context := aligned (source.take shared) (target.take shared)
  let context := (source.drop shared).foldl addInstantiable context
  (target.drop shared).foldl addConstrained context

end BinderRelationContext

/-! ## §2 Reading the stack -/

/-- The loop of `contextual_param_ids_are_aligned`. -/
def paramIdsAligned (src tgt : TypeParamId) :
    List BinderRelationContext → (direct reverse : Bool) → Bool
  | [], _, _ => false
  | context :: outer, direct, reverse =>
    if direct && context.sourceToTarget.lookup src == some tgt then true
    else if reverse && context.targetToSource.lookup src == some tgt then true
    else
      let direct := direct && (decide (src ∉ context.sourceParameters)
        && decide (tgt ∉ context.targetParameters))
      let reverse := reverse && (decide (src ∉ context.targetParameters)
        && decide (tgt ∉ context.sourceParameters))
      if !direct && !reverse then false else paramIdsAligned src tgt outer direct reverse

/-- `contextual_param_ids_are_aligned`. -/
def contextualParamIdsAreAligned (contexts : List BinderRelationContext) (src tgt : TypeParamId) :
    Bool :=
  paramIdsAligned src tgt contexts true true

variable (store : Store)

/-- `contextual_params_are_aligned`. -/
def contextualParamsAreAligned (contexts : List BinderRelationContext) (src tgt : TypeId) : Bool :=
  match store.typeParam src, store.typeParam tgt with
  | some src, some tgt => contextualParamIdsAreAligned contexts src.id tgt.id
  | _, _ => false

/-- `contextual_deferred_indexed_accesses_are_identical`. -/
def contextualDeferredIndexedAccessesAreIdentical (contexts : List BinderRelationContext)
    (src tgt : TypeId) : Bool :=
  match store.deferredIndexedAccessType src, store.deferredIndexedAccessType tgt with
  | some src, some tgt =>
    src.object == tgt.object
      && (src.index == tgt.index || contextualParamsAreAligned store contexts src.index tgt.index)
  | _, _ => false

/-- `contextual_type_param_constraint`: the innermost context of a parameter decides. -/
def contextualTypeParamConstraint (contexts : List BinderRelationContext) (ty : TypeId) :
    Option (Option TypeId) :=
  (store.typeParam ty).bind (fun param =>
    (contexts.find? (fun context => decide (param.id ∈ context.parameters))).map
      (fun context => (context.constraints.lookup param.id).join))

/-- The index of the innermost context that can specialize a parameter. -/
def specializingContext (contexts : List BinderRelationContext) (param : TypeParamId) :
    Option Nat :=
  contexts.findIdx? (fun context => decide (param ∈ context.instantiableSource))

/-! ## §3 The environment of a stack -/

/-- `StackBinderEnvironment`; the sorted vectors are without repetition, so they are sets. -/
structure StackBinderEnvironment where
  sourceToTargetAlignments : FxHashSet (TypeParamId × TypeParamId) := ∅
  targetToSourceAlignments : FxHashSet (TypeParamId × TypeParamId) := ∅
  deferredAlignments : FxHashSet (TypeParamId × TypeParamId) := ∅
  constraints : FxHashMap TypeParamId (Option TypeId) := ∅
  sourceSpecializations : FxHashMap TypeParamId (Option TypeId × Option TypeId) := ∅
  deriving DecidableEq

/-- The entries of a map, as a set. -/
def alignmentSet (map : FxHashMap TypeParamId TypeParamId) :
    FxHashSet (TypeParamId × TypeParamId) :=
  (FxHashMap.sortedEntries map).toFinset

/-- What the loop of `binder_environment_id` collects, from the outermost context on. -/
def collectEnvironment : List BinderRelationContext → StackBinderEnvironment
  | [] => {}
  | context :: outer =>
    let rest := collectEnvironment outer
    { sourceToTargetAlignments := rest.sourceToTargetAlignments ∪ alignmentSet context.sourceToTarget
      targetToSourceAlignments := rest.targetToSourceAlignments ∪ alignmentSet context.targetToSource
      constraints := (FxHashSet.sorted context.parameters).foldl (fun constraints param =>
        constraints.insert param (context.constraints.lookup param).join) rest.constraints
      sourceSpecializations := (FxHashSet.sorted context.instantiableSource).foldl
        (fun specializations param => specializations.insert param
          ((context.constraints.lookup param).join, context.sourceInstantiations.lookup param))
        rest.sourceSpecializations }

/-- The environment that `binder_environment_id` looks up. -/
def stackBinderEnvironment (contexts : List BinderRelationContext) : StackBinderEnvironment :=
  let environment := collectEnvironment contexts
  { environment with
    deferredAlignments :=
      (environment.sourceToTargetAlignments ∪ environment.targetToSourceAlignments).filter
        (fun pair => contextualParamIdsAreAligned contexts pair.1 pair.2) }

/-- `StackBinderEnvironment::is_empty`. -/
def StackBinderEnvironment.isEmpty (environment : StackBinderEnvironment) : Bool :=
  decide (environment = {})

/-! ## §4 Occurrences of a parameter -/

/-- The components that `type_contains_type_param` looks into. -/
def shapeChildren : Row → List TypeId
  | .object body =>
    body.properties.map (fun property => property.ty) ++ body.stringIndex.toList
      ++ body.numberIndex.toList ++ body.callSignatures ++ body.constructSignatures
  | .function body =>
    body.receiver.toList ++ body.params.map (fun slot => slot.ty) ++ [body.ret]
      ++ body.typeParams.flatMap (fun binder => binder.constraint.toList ++ binder.default.toList)
  | .union members => members
  | .intersection members => members
  | .array element => [element]
  | .tuple body => body.elements ++ body.rest.toList.map (fun rest => rest.ty)
  | .readonly operand => [operand]
  | .conditional body => [body.check, body.extendsTy, body.trueBranch, body.falseBranch]
  | .instantiation body => body.base :: body.args.map (fun arg => arg.2)
  | .classInstance body => body.args
  | .mapped body => body.keySource :: body.valueTemplate :: body.modifiersSource.toList
  | .template body => body.holes
  | .keyof operand => [operand]
  | .deferredIndexedAccess body => [body.object, body.index]
  | .declared body => body.mapper.map (fun entry => entry.2)
  | .intrinsic _ | .literal _ | .infer _ | .mappedValue | .typeParam _ => []

/-- Whether a row is the parameter itself, or a recipe that leaves it free. -/
def isParameter (parameter : TypeParamId) : Row → Bool
  | .typeParam param => param.id == parameter
  | .declared body =>
    !body.mapper.any (fun entry => entry.1 == parameter)
      && (store.declaredRecipe body.recipe).any (fun recipe =>
        recipe.freeParams.contains parameter)
  | _ => false

/-- The children of the row of an id, for a search. -/
def childrenOf (children : Row → List TypeId) (ty : TypeId) : List TypeId :=
  ((store.row ty).map children).getD []

/-- More turns than any search over the rows of a store takes from one start. -/
def searchFuel (children : Row → List TypeId) : Nat :=
  Lib.unvisitedEdges (childrenOf store children) (Finset.range store.len) ∅ + 2

/-- The searches answer: their fuel is never used up. -/
theorem searchGraph_row_isSome (children : Row → List TypeId) (found : TypeId → Bool) (ty : TypeId) :
    (Lib.searchGraph (childrenOf store children) found (searchFuel store children) [ty] ∅).isSome
      = true := by
  have hdomain : ∀ node ∉ Finset.range store.len, childrenOf store children node = [] := by
    intro node hnode
    rw [Finset.mem_range, not_lt] at hnode
    simp [childrenOf, store.row_eq_none_of_le hnode]
  apply Lib.searchGraph_isSome hdomain
  rw [searchFuel, List.length_singleton]
  omega

/-- Whether a search from an id finds a row. -/
def searchRows (children : Row → List TypeId) (found : TypeId → Bool) (ty : TypeId) : Bool :=
  (Lib.searchGraph (childrenOf store children) found (searchFuel store children) [ty] ∅).get
    (searchGraph_row_isSome store children found ty)

/-- `type_contains_type_param`. -/
def typeContainsTypeParam (ty : TypeId) (parameter : TypeParamId) : Bool :=
  searchRows store shapeChildren (fun node => (store.row node).any (isParameter store parameter)) ty

/-- `function_parameters_contain_type_param`. -/
def functionParametersContainTypeParam (function : FunctionType) (parameter : TypeParamId) : Bool :=
  function.receiver.any (fun receiver => typeContainsTypeParam store receiver parameter)
    || function.params.any (fun slot => typeContainsTypeParam store slot.ty parameter)

/-- `function_shape_contains_type_param`. -/
def functionShapeContainsTypeParam (function : FunctionType) (parameter : TypeParamId) : Bool :=
  functionParametersContainTypeParam store function parameter
    || typeContainsTypeParam store function.ret parameter

/-- The components that `contains_infer` looks into; a nested conditional binds its own indices
    again. -/
def inferChildren : Row → List TypeId
  | .object body =>
    body.properties.map (fun property => property.ty) ++ body.stringIndex.toList
      ++ body.numberIndex.toList ++ body.callSignatures ++ body.constructSignatures
  | .function body => body.receiver.toList ++ body.params.map (fun slot => slot.ty) ++ [body.ret]
  | .union members => members
  | .intersection members => members
  | .array element => [element]
  | .tuple body => body.elements ++ body.rest.toList.map (fun rest => rest.ty)
  | .readonly operand => [operand]
  | .instantiation body => body.args.map (fun arg => arg.2)
  | .classInstance body => body.args
  | .template body => body.holes
  | .keyof operand => [operand]
  | .deferredIndexedAccess body => [body.object, body.index]
  | .declared body => body.mapper.map (fun entry => entry.2)
  | .intrinsic _ | .literal _ | .typeParam _ | .infer _ | .conditional _ | .mapped _
  | .mappedValue => []

/-- `contains_infer`. -/
def containsInfer (ty : TypeId) : Bool :=
  searchRows store inferChildren (fun node => store.tag node == some .infer) ty

end Typokat.Relate
