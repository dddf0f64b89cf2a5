import Typokat.Check.IndexedAccess
import Typokat.Lib.Contracts
import Typokat.Query.ProjectionPlan

/-!
# The Projection Planner (`typokat-check/src/check/query/mod.rs`)

The planner fills the plan of one query.  It projects class applications, evaluates the other
semantic nodes, and visits what an operation needs first and what it leads to.

The operations of the interner that the planner calls are parameters.  All that is known of them
is what their type says: they append to the arena, and the arena is well formed.  An evaluation
may change the working memo and the counter of type parameters in any way.

A visit runs on fuel, and it stops for good where the source panics.

## Main Definitions

- `PlannerEnvironment` : the interner and the published classes as the planner sees them
- `Planner` : the state of a planner
- `Planner.visitWithPolicy`, `Planner.expandRelationDemand` : its two entry points
-/

namespace Typokat.Query

open Types Check Lib

/-! ## §1 The environment -/

/-- What can be read of an interner. -/
structure InternerView (I : Type) where
  store : I → Store
  wellFormed : ∀ interner, (store interner).WellFormed

/-- The arena is append-only. -/
def InternerView.Grows {I : Type} (view : InternerView I) (before after : I) : Prop :=
  ∀ ty row, (view.store before).row ty = some row → (view.store after).row ty = some row

/-- What an operation on an interner answers and leaves behind. -/
structure Interned {I : Type} (view : InternerView I) (before : I) (R : Type) where
  result : R
  interner : I
  grows : view.Grows before interner

inductive DerivationEdge
  | instantiationArgument (index : Nat)
  | classArgument (index : Nat)
  deriving DecidableEq, Repr

inductive DerivedSubstitutionOutcome
  | cycleClean (result : DerivedType)
  | cycleTainted (result : DerivedType)
  deriving DecidableEq, Repr

inductive NativeSourceSurface
  | array (readonly : Bool) (argument length : TypeId)
  | string | number | boolean | object | function
  deriving DecidableEq, Repr

/-- What `ConditionalEvaluator::evaluate_planned` reads besides the interner. -/
structure EvaluationRequest where
  ty : TypeId
  nextTypeParam : Nat
  durableMemo : FxHashMap TypeId TypeId
  workingMemo : FxHashMap TypeId TypeId
  plan : ProjectionPlan

/-- What an evaluator holds when it is done. -/
structure EvaluationAnswer where
  outcome : PlannedOutcome TypeId
  exhausted : Bool
  cycleDetected : Bool
  nextTypeParam : Nat
  workingMemo : FxHashMap TypeId TypeId

/-- The interner and the published classes. -/
structure PlannerEnvironment (I : Type) extends InternerView I where
  publishedClass : ClassId → PlannedOutcome PublishedClassSurface
  applicationOccurrenceNode : TypeId → (interner : I) →
    Interned toInternerView interner DerivedType
  derivationChild : I → DerivedType → DerivationEdge → TypeId → DerivedType
  deriveSubstitutionResult : TypeId → TypeId → FxHashMap TypeParamId DerivedType →
    (interner : I) → Interned toInternerView interner DerivedType
  substituteDerivedWithOutcome : TypeId → FxHashMap TypeParamId DerivedType →
    (interner : I) → Interned toInternerView interner DerivedSubstitutionOutcome
  substituteWithOutcome : TypeId → FxHashMap TypeParamId TypeId →
    (interner : I) → Interned toInternerView interner SubstitutionOutcome
  /-- `none` is an error -/
  materializeDeclaredDerived : TypeId →
    (interner : I) → Interned toInternerView interner (Option DerivedSubstitutionOutcome)
  resolveDeferredOuterLayer : TypeId → (interner : I) → Interned toInternerView interner TypeId
  resolveKeyofOuterLayer : TypeId → (interner : I) → Interned toInternerView interner TypeId
  internDeferredIndexedAccess : TypeId → TypeId →
    (interner : I) → Interned toInternerView interner TypeId
  internObject : ObjectType → (interner : I) → Interned toInternerView interner TypeId
  classifyNativeSourceSurface : TypeId →
    (interner : I) → Interned toInternerView interner (Option NativeSourceSurface)
  evaluatePlanned : EvaluationRequest →
    (interner : I) → Interned toInternerView interner EvaluationAnswer

/-! ## §2 The state -/

/-- `MAX_CLASS_PROJECTION_EXPANSIONS`. -/
def maxClassProjectionExpansions : Nat := 128

/-- `DEFAULT_STEP_BUDGET`. -/
def defaultStepBudget : Nat := 1000

/-- `ProjectionPlanner`. -/
structure Planner (I : Type) where
  interner : I
  durableProjectionMemo : FxHashMap TypeId TypeId
  durableEvaluationMemo : FxHashMap TypeId TypeId
  workingEvaluationMemo : FxHashMap TypeId TypeId := ∅
  nextTypeParam : Nat
  plan : ProjectionPlan
  pendingProjectionWrites : FxHashMap TypeId TypeId := ∅
  admittedApplications : FxHashSet TypeId := ∅
  visiting : FxHashSet TypeId := ∅
  visited : FxHashSet TypeId := ∅
  planningTainted : Bool := false
  cycleTaintReason : Option Exhaustion := none
  firstExhaustion : Option Exhaustion := none
  evaluationExpansions : Nat := 0

/-- Why there is no result: not enough fuel, an id that is out of range, or a class application
    of the wrong arity. -/
inductive PlannerStop
  | outOfFuel
  | dangling
  | arity
  deriving DecidableEq, Repr

/-- A method of the planner; it does not fail. -/
abbrev PlannerM (I A : Type) := Attempt (Planner I) PlannerStop Empty A

inductive SemanticVisitPolicy
  | recursive
  | demandOuterOnly
  | relationRootOuterOnly
  deriving DecidableEq, Repr

/-- `SemanticVisitPolicy::operand_policy`. -/
def SemanticVisitPolicy.operandPolicy : SemanticVisitPolicy → SemanticVisitPolicy
  | .relationRootOuterOnly => .recursive
  | policy => policy

/-- `SemanticVisitPolicy::admits_result_recursively`. -/
def SemanticVisitPolicy.admitsResultRecursively (policy : SemanticVisitPolicy) : Bool :=
  policy == .recursive

/-! ## §3 Children -/

/-- `query_children`. -/
def queryChildren (store : Store) (ty : TypeId) : List TypeId :=
  match store.row ty with
  | some (.object object) =>
    object.properties.flatMap (fun property => property.ty :: property.writeTy.toList) ++
      object.stringIndex.toList ++ object.numberIndex.toList ++ object.callSignatures ++
      object.constructSignatures
  | some (.function function) =>
    function.typeParams.flatMap
        (fun parameter => parameter.constraint.toList ++ parameter.default.toList) ++
      function.receiver.toList ++ function.params.map (fun parameter => parameter.ty) ++
      [function.ret]
  | some (.typeParam parameter) => (store.typeParamConstraint parameter.id).toList
  | some (.union members) => members
  | some (.intersection members) => members
  | some (.array element) => [element]
  | some (.tuple tuple) => tuple.elements ++ (tuple.rest.map (fun rest => rest.ty)).toList
  | some (.readonly operand) => [operand]
  | some (.conditional conditional) =>
    [conditional.check, conditional.extendsTy, conditional.trueBranch, conditional.falseBranch]
  | some (.instantiation instantiation) =>
    instantiation.base :: instantiation.args.map Prod.snd
  | some (.classInstance instance_) => instance_.args
  | some (.mapped mapped) =>
    [mapped.keySource, mapped.valueTemplate] ++ mapped.modifiersSource.toList
  | some (.template template) => template.holes
  | some (.keyof operand) => [operand]
  | some (.deferredIndexedAccess access) => [access.object, access.index]
  | some (.declared declared) => declared.mapper.map Prod.snd
  | _ => []

/-- `object_requires_demand`: `none` while the call has not returned after `fuel` nested calls,
    and for the panic of an id that is out of range. -/
def objectRequiresDemand (store : Store) : Nat → TypeId → Option Bool
  | 0, _ => none
  | fuel + 1, object =>
    (store.tag object).bind (fun tag =>
      match tag with
      | .readonly =>
        match store.readonlyOperand object with
        | some operand => objectRequiresDemand store fuel operand
        | none => some false
      | .conditional | .instantiation | .classInstance | .mapped | .template | .keyof
      | .deferredIndexedAccess | .typeParam | .infer | .mappedValue | .declared => some true
      | _ => some false)

/-- `index_requires_planner_visit`.  Visiting a type parameter cannot rewrite its nested
    constraint into the index root. -/
def indexRequiresPlannerVisit (store : Store) (fuel : Nat) (index : TypeId) : Option Bool :=
  if store.tag index = some .typeParam then some false else indexRequiresDemand store fuel index

namespace Planner

section Methods

variable {I : Type} (env : PlannerEnvironment I)

/-! ## §4 Reading and recording -/

/-- An operation of the interner. -/
def intern {R : Type}
    (operation : (interner : I) → Interned env.toInternerView interner R) : PlannerM I R :=
  .step (fun planner =>
    let interned := operation planner.interner
    (.ok interned.result, { planner with interner := interned.interner }))

/-- Read the arena. -/
def readStore {R : Type} (f : Store → R) : PlannerM I R :=
  .read (fun planner => f (env.store planner.interner))

/-- `interner.store().tag(ty)`. -/
def tag (ty : TypeId) : PlannerM I TypeTag := do
  match ← readStore env (fun store => store.tag ty) with
  | some tag => pure tag
  | none => .halt .dangling

/-- `mark_cycle_tainted`. -/
def markCycleTainted (ty : TypeId) : PlannerM I Unit :=
  .update (fun planner =>
    { planner with
      cycleTaintReason := planner.cycleTaintReason.or (some (.evaluationCycle ty)) })

/-- A change of the plan. -/
def updatePlan (f : ProjectionPlan → ProjectionPlan) : PlannerM I Unit :=
  .update (fun planner => { planner with plan := f planner.plan })

/-- `mark_frontier`. -/
def markFrontier (ty : TypeId) (reason : Exhaustion) : PlannerM I Unit := do
  Attempt.update (fun planner =>
    { planner with
      planningTainted := true
      firstExhaustion := planner.firstExhaustion.or (some reason) })
  updatePlan (fun plan => plan.giveUp ty reason)

/-- `record_evaluation`. -/
def recordEvaluation (source result : TypeId) : PlannerM I Unit := do
  Attempt.update (fun planner =>
    { planner with
      workingEvaluationMemo := planner.workingEvaluationMemo.insert source result })
  updatePlan (fun plan => plan.recordEvaluation source result)

/-- `record_derived_evaluation`. -/
def recordDerivedEvaluation (source result : DerivedType) : PlannerM I Unit := do
  recordEvaluation source.ty result.ty
  updatePlan (fun plan => plan.overlayDerived source result)

/-- `class_instance_occurrence_derived`. -/
def classInstanceOccurrenceDerived (ty : TypeId) : PlannerM I (Option DerivedType) := do
  match ← readStore env (fun store => store.classInstanceType ty) with
  | none => pure none
  | some _ => do
    let occurrence ← intern env (env.applicationOccurrenceNode ty)
    pure (some occurrence)

/-- `instantiation_occurrence_derived`. -/
def instantiationOccurrenceDerived (ty : TypeId) : PlannerM I (Option DerivedType) := do
  match ← readStore env (fun store => store.instantiationType ty) with
  | none => pure none
  | some _ => do
    let occurrence ← intern env (env.applicationOccurrenceNode ty)
    pure (some occurrence)

/-- The occurrence of a type: its own one, or a new one. -/
def occurrenceOf (derived : DerivedType)
    (occurrence : TypeId → PlannerM I (Option DerivedType)) : PlannerM I (Option DerivedType) :=
  if derived.derivation.isSome then pure (some derived) else occurrence derived.ty

/-- The arguments of an application with their provenance. -/
def derivedArguments (occurrence : DerivedType) (edge : Nat → DerivationEdge)
    (parameters : List TypeParamId) (arguments : List TypeId) :
    PlannerM I (FxHashMap TypeParamId DerivedType) :=
  .read (fun planner =>
    let children := arguments.zipIdx.map (fun (argument, index) =>
      env.derivationChild planner.interner occurrence (edge index) argument)
    SemanticQueryState.extendEntries ∅ (parameters.zip children))

/-- `record_existing_evaluation`. -/
def recordExistingEvaluation (source : DerivedType) (result : TypeId) : PlannerM I Unit := do
  match ← readStore env (fun store => store.instantiationType source.ty) with
  | none => recordEvaluation source.ty result
  | some instantiation =>
    match ← occurrenceOf source (instantiationOccurrenceDerived env) with
    | none => recordEvaluation source.ty result
    | some occurrence => do
      let map ← derivedArguments env occurrence .instantiationArgument
        (instantiation.args.map Prod.fst) (instantiation.args.map Prod.snd)
      let derived ← intern env (env.deriveSubstitutionResult instantiation.base result map)
      recordDerivedEvaluation source derived

/-! ## §5 Classes -/

/-- The application is admitted, unless the query has spent its projections. -/
def admitApplication (application : TypeId) : PlannerM I Bool :=
  .step (fun planner =>
    if application ∈ planner.admittedApplications then (.ok true, planner)
    else if maxClassProjectionExpansions ≤ planner.admittedApplications.card then
      (.ok false, planner)
    else
      (.ok true,
        { planner with
          admittedApplications := insert application planner.admittedApplications }))

/-- The surface of an application: the durable one, or a substitution. -/
def derivedProjection (application : TypeId) (surface : PublishedClassSurface)
    (map : FxHashMap TypeParamId DerivedType) : PlannerM I DerivedType := do
  match ← Attempt.read (fun planner => planner.durableProjectionMemo.lookup application) with
  | some projection =>
    intern env (env.deriveSubstitutionResult surface.instanceTemplate projection map)
  | none =>
    match ← intern env (env.substituteDerivedWithOutcome surface.instanceTemplate map) with
    | .cycleClean derived => do
      Attempt.update (fun planner =>
        { planner with
          pendingProjectionWrites :=
            planner.pendingProjectionWrites.insert application derived.ty })
      pure derived
    | .cycleTainted derived => do
      markCycleTainted application
      pure derived

/-- The part of `project_class_outer_derived` for a class with a published surface. -/
def projectSurface (application : DerivedType) (instance_ : ClassInstanceType)
    (surface : PublishedClassSurface) : PlannerM I DerivedType :=
  if surface.typeParams.length ≠ instance_.args.length then .halt .arity
  else do
    match ← occurrenceOf application (classInstanceOccurrenceDerived env) with
    | none => pure application
    | some occurrence => do
      updatePlan (fun plan => plan.resolveProjection application.ty)
      let map ← derivedArguments env occurrence .classArgument surface.typeParams instance_.args
      let derivedProjection ← derivedProjection env application.ty surface map
      updatePlan (fun plan => plan.overlayProjection application.ty derivedProjection.ty)
      updatePlan (fun plan => plan.overlayDerived application derivedProjection)
      pure derivedProjection

/-- `project_class_outer_derived`. -/
def projectClassOuterDerived (application : DerivedType) : PlannerM I DerivedType := do
  if ← admitApplication application.ty then
    match ← readStore env (fun store => store.classInstanceType application.ty) with
    | none => pure application
    | some instance_ =>
      match env.publishedClass instance_.classId with
      | .exhausted reason => do
        markFrontier application.ty reason
        pure application
      | .ready surface => projectSurface env application instance_ surface
  else do
    markFrontier application.ty .classProjectionBudget
    pure application

/-- `project_class_outer`. -/
def projectClassOuter (application : TypeId) : PlannerM I TypeId := do
  let projection ← projectClassOuterDerived env (.plain application)
  pure projection.ty

/-! ## §6 Evaluations

The methods of this section call `visit_with_policy`, which is a parameter of theirs. -/

variable (visit : TypeId → SemanticVisitPolicy → PlannerM I TypeId)

/-- `visit_demand_result`. -/
def visitDemandResult (result : TypeId) (policy : SemanticVisitPolicy) : PlannerM I Unit :=
  match policy with
  | .recursive => .discard (visit result .recursive)
  | .demandOuterOnly | .relationRootOuterOnly => do
    match ← tag env result with
    | .classInstance => .discard (projectClassOuter env result)
    | .deferredIndexedAccess | .declared => .discard (visit result policy)
    | _ => pure ()

/-- `project_class`. -/
def projectClass (application : TypeId) : PlannerM I TypeId := do
  let projection ← projectClassOuter env application
  .discard (visit projection .recursive)
  pure projection

/-- An evaluation with a result: it is recorded, and the result is visited. -/
def settle (ty result : TypeId) (policy : SemanticVisitPolicy) : PlannerM I TypeId := do
  recordEvaluation ty result
  visitDemandResult env visit result policy
  pure result

/-- A visit, where a type asks for one. -/
def visitOperand (required : Option Bool) (operand : TypeId) (policy : SemanticVisitPolicy) :
    PlannerM I TypeId :=
  match required with
  | none => .halt .outOfFuel
  | some true => visit operand policy.operandPolicy
  | some false => pure operand

/-- The object of an indexed access; the constraint of a type parameter stands for it. -/
def visitObject (fuel : Nat) (object : TypeId) (policy : SemanticVisitPolicy) :
    PlannerM I TypeId := do
  match ← readStore env (fun store => objectRequiresDemand store fuel object) with
  | none => .halt .outOfFuel
  | some false => pure object
  | some true => do
    let object ← visit object policy.operandPolicy
    match ← readStore env (fun store =>
        ((store.typeParam object).bind (fun parameter =>
          store.typeParamConstraint parameter.id)).filter
            (fun constraint => constraint ≠ object)) with
    | some constraint => visit constraint policy.operandPolicy
    | none => pure object

/-- `self.plan.normalize(operand)`; an error moves the frontier to the type itself. -/
def normalizeOperand (ty operand : TypeId) (proceed : TypeId → PlannerM I TypeId) :
    PlannerM I TypeId := do
  match ← Attempt.read (fun planner => planner.plan.normalize operand) with
  | .ok operand => proceed operand
  | .error reason => do
    markFrontier ty reason
    pure ty

/-- The access with its normalized operands. -/
def rebuildAccess (ty : TypeId) (access : DeferredIndexedAccessType) (object index : TypeId) :
    PlannerM I TypeId :=
  if object = access.object ∧ index = access.index then pure ty
  else intern env (env.internDeferredIndexedAccess object index)

/-- `evaluate_deferred_indexed`. -/
def evaluateDeferredIndexed (fuel : Nat) (ty : TypeId) (policy : SemanticVisitPolicy) :
    PlannerM I TypeId := do
  match ← readStore env (fun store => store.deferredIndexedAccessType ty) with
  | none => pure ty
  | some access => do
    let shallow ← intern env (env.resolveDeferredOuterLayer ty)
    if shallow ≠ ty then settle env visit ty shallow policy
    else do
      let object ← visitObject env visit fuel access.object policy
      let required ← readStore env (fun store =>
        indexRequiresPlannerVisit store fuel access.index)
      let index ← visitOperand visit required access.index policy
      normalizeOperand ty object (fun object =>
        normalizeOperand ty index (fun index => do
          let rebuilt ← rebuildAccess env ty access object index
          let result ← intern env (env.resolveDeferredOuterLayer rebuilt)
          settle env visit ty result policy))

/-- `evaluate_keyof`. -/
def evaluateKeyof (ty : TypeId) (policy : SemanticVisitPolicy) : PlannerM I TypeId := do
  match ← readStore env (fun store => store.keyofOperand ty) with
  | none => pure ty
  | some operand => do
    let shallow ← intern env (env.resolveKeyofOuterLayer operand)
    if shallow ≠ ty then settle env visit ty shallow policy
    else do
      let operand ← visit operand policy.operandPolicy
      normalizeOperand ty operand (fun operand => do
        let result ← intern env (env.resolveKeyofOuterLayer operand)
        settle env visit ty result policy)

/-- `evaluation_prerequisites`. -/
def evaluationPrerequisites (store : Store) (ty : TypeId) (policy : SemanticVisitPolicy) :
    List TypeId :=
  if policy = .relationRootOuterOnly ∧ store.tag ty = some .instantiation ∧
      (store.instantiationType ty).any
        (fun instantiation => store.tag instantiation.base = some .object) then []
  else queryChildren store ty

/-- The call of the evaluator, with its memo and its counter. -/
def runEvaluator (ty : TypeId) : PlannerM I EvaluationAnswer :=
  .step (fun planner =>
    let answer := env.evaluatePlanned
      { ty := ty, nextTypeParam := planner.nextTypeParam
        durableMemo := planner.durableEvaluationMemo
        workingMemo := planner.workingEvaluationMemo, plan := planner.plan } planner.interner
    (.ok answer.result,
      { planner with
        interner := answer.interner
        nextTypeParam := answer.result.nextTypeParam
        workingEvaluationMemo := answer.result.workingMemo }))

/-- An evaluation with a result: it is recorded with its provenance, and the result is visited. -/
def settleExisting (ty result : TypeId) (policy : SemanticVisitPolicy) : PlannerM I TypeId := do
  recordExistingEvaluation env (.plain ty) result
  visitDemandResult env visit result policy
  pure result

/-- The frontier takes the type of an evaluation without a result. -/
def giveUp (ty : TypeId) (reason : Exhaustion) : PlannerM I TypeId := do
  markFrontier ty reason
  pure ty

/-- The part of `evaluate_existing` behind the prerequisites. -/
def evaluateFresh (ty : TypeId) (policy : SemanticVisitPolicy) : PlannerM I TypeId := do
  if defaultStepBudget ≤ (← Attempt.read (fun planner => planner.evaluationExpansions)) then
    giveUp ty .evaluationBudget
  else do
    Attempt.update (fun planner =>
      { planner with evaluationExpansions := planner.evaluationExpansions + 1 })
    let answer ← runEvaluator env ty
    if answer.exhausted then giveUp ty .evaluationBudget
    else if answer.cycleDetected then giveUp ty (.evaluationCycle ty)
    else
      match answer.outcome with
      | .ready result => settleExisting env visit ty result policy
      | .exhausted reason => giveUp ty reason

/-- `evaluate_existing`. -/
def evaluateExisting (ty : TypeId) (policy : SemanticVisitPolicy) : PlannerM I TypeId := do
  match ← Attempt.read (fun planner =>
      (planner.workingEvaluationMemo.lookup ty).or (planner.durableEvaluationMemo.lookup ty)) with
  | some result => settleExisting env visit ty result policy
  | none => do
    let children ← readStore env (fun store => evaluationPrerequisites store ty policy)
    .forEach (fun child => .discard (visit child policy.operandPolicy)) children
    evaluateFresh env visit ty policy

/-- `evaluate_existing_derived`. -/
def evaluateExistingDerived (source : DerivedType) (policy : SemanticVisitPolicy) :
    PlannerM I DerivedType := do
  let result ← evaluateExisting env visit source.ty policy
  recordExistingEvaluation env source result
  match ← Attempt.read (fun planner =>
      planner.plan.normalizeDerived (env.store planner.interner) source) with
  | .ok derived => pure derived
  | .error _ => pure (.plain result)

/-- What a type was materialized to; a cycle taints the query. -/
def materialized (ty : TypeId) : DerivedSubstitutionOutcome → PlannerM I DerivedType
  | .cycleClean result => pure result
  | .cycleTainted result => do
    markCycleTainted ty
    pure result

/-- `evaluate_declared_derived`. -/
def evaluateDeclaredDerived (source : DerivedType) (policy : SemanticVisitPolicy) :
    PlannerM I DerivedType := do
  match ← intern env (env.materializeDeclaredDerived source.ty) with
  | none => do
    markFrontier source.ty (.evaluationInvalidNode source.ty)
    pure source
  | some outcome => do
    let derived ← materialized source.ty outcome
    recordDerivedEvaluation source derived
    visitDemandResult env visit derived.ty policy
    pure derived

/-- `evaluate_declared`. -/
def evaluateDeclared (ty : TypeId) (policy : SemanticVisitPolicy) : PlannerM I TypeId := do
  let derived ← evaluateDeclaredDerived env visit (.plain ty) policy
  pure derived.ty

/-! ## §7 Visits -/

/-- Whether a visit has to reconstruct the provenance of an instantiation. -/
def reconstructsInstantiation (planner : Planner I) (ty : TypeId) : Bool :=
  (env.store planner.interner).tag ty = some .instantiation ∧
    ty ∈ planner.durableEvaluationMemo ∧ DerivedType.plain ty ∉ planner.plan.derivedOverlay

/-- The type that an overlay puts in the place of a visited one. -/
def overlayHit (planner : Planner I) (ty : TypeId) : Option TypeId :=
  if reconstructsInstantiation env planner ty then none
  else
    match planner.plan.normalize ty with
    | .ok normalized => if normalized ≠ ty then some normalized else none
    | .error _ => none

/-- The work of a visit, by tag. -/
def visitNode (fuel : Nat) (ty : TypeId) (policy : SemanticVisitPolicy) :
    TypeTag → PlannerM I TypeId
  | .classInstance =>
    if policy.admitsResultRecursively then projectClass env visit ty else projectClassOuter env ty
  | .deferredIndexedAccess => evaluateDeferredIndexed env visit fuel ty policy
  | .keyof => evaluateKeyof env visit ty policy
  | .conditional | .instantiation | .union | .mapped | .template =>
    evaluateExisting env visit ty policy
  | .declared => evaluateDeclared env visit ty policy
  | _ => do
    let children ← readStore env (fun store => queryChildren store ty)
    .forEach (fun child => .discard (visit child policy.operandPolicy)) children
    pure ty

/-- The visit of a type starts. -/
def enter (ty : TypeId) (planner : Planner I) : Planner I :=
  { planner with visiting := insert ty planner.visiting }

/-- The visit of a type is over. -/
def leave (ty : TypeId) (planner : Planner I) : Planner I :=
  { planner with visiting := planner.visiting.erase ty, visited := insert ty planner.visited }

/-- `visit_with_policy`. -/
def visitWithPolicy : Nat → TypeId → SemanticVisitPolicy → PlannerM I TypeId
  | 0, _, _ => .halt .outOfFuel
  | fuel + 1, ty, policy => do
    let tag ← tag env ty
    match ← Attempt.read (fun planner => overlayHit env planner ty) with
    | some normalized => do
      visitDemandResult env (visitWithPolicy fuel) normalized policy
      Attempt.read (fun planner => (planner.plan.normalize ty).toOption.getD normalized)
    | none =>
      if ← Attempt.read (fun planner => decide (ty ∈ planner.visited)) then pure ty
      else if ← Attempt.read (fun planner => decide (ty ∈ planner.visiting)) then pure ty
      else
        .bracket (enter ty) (visitNode env (visitWithPolicy fuel) fuel ty policy tag) (leave ty)

/-! ## §8 Demands -/

/-- `override_native_length`. -/
def overrideNativeLength (surface length : TypeId) : PlannerM I (Option TypeId) := do
  match ← readStore env (fun store => store.objectType surface) with
  | none => pure none
  | some object =>
    -- the first property of that name
    match object.properties.findIdx? (fun property => property.key.asString == some "length") with
    | none => pure none
    | some position => do
      let properties := object.properties.modify position (fun property =>
        { property with ty := length, writeTy := property.writeTy.map (fun _ => length) })
      let surface ← intern env (env.internObject { object with properties := properties })
      pure (some surface)

/-- The surface of a native type. -/
def nativeSurface (source : TypeId) (context : LibraryObjectRelationContext) :
    NativeSourceSurface → PlannerM I (Option TypeId)
  | .array readonly argument length => do
    let generic := if readonly then context.readonlyArray else context.array
    let outcome ← intern env (env.substituteWithOutcome generic.template
      (Finmap.singleton generic.parameter argument))
    match outcome with
    | .cycleClean surface => overrideNativeLength env surface length
    | .cycleTainted surface => do
      markCycleTainted source
      overrideNativeLength env surface length
  | .string => pure (some context.string)
  | .number => pure (some context.number)
  | .boolean => pure (some context.boolean)
  | .object => pure (some context.object)
  | .function => pure (some context.callableFunction)

/-- `project_apparent_surface`. -/
def projectApparentSurface (source : TypeId) : PlannerM I Unit := do
  if ← Attempt.read (fun planner => planner.plan.surfaced source) then pure ()
  else
    match ← Attempt.read (fun planner => planner.plan.libraryObjectContext) with
    | none => updatePlan (fun plan => plan.recordSurface source none)
    | some context =>
      match ← intern env (env.classifyNativeSourceSurface source) with
      | none => updatePlan (fun plan => plan.recordSurface source none)
      | some native => do
        let surface ← nativeSurface env source context native
        updatePlan (fun plan => plan.recordSurface source surface)

/-- `visit_relation_root`. -/
def visitRelationRoot (fuel : Nat) (ty : TypeId) : PlannerM I Unit :=
  .discard (visitWithPolicy env fuel ty .relationRootOuterOnly)

/-- `expand_relation_demand`. -/
def expandRelationDemand (fuel : Nat) : RelationDemand → PlannerM I Unit
  | .classProjection application => .discard (projectClassOuter env application)
  | .evaluation ty => do
    match ← tag env ty with
    | .declared =>
      .discard (evaluateDeclared env (visitWithPolicy env fuel) ty .relationRootOuterOnly)
    | _ => visitRelationRoot env fuel ty
  | .derivedClassProjection application => .discard (projectClassOuterDerived env application)
  | .derivedEvaluation derived => do
    match ← tag env derived.ty with
    | .declared =>
      .discard
        (evaluateDeclaredDerived env (visitWithPolicy env fuel) derived .relationRootOuterOnly)
    | .instantiation =>
      .discard
        (evaluateExistingDerived env (visitWithPolicy env fuel) derived .relationRootOuterOnly)
    | _ => visitRelationRoot env fuel derived.ty
  | .apparentSurface ty => projectApparentSurface env ty

/-- A root of `prepare_relation_roots`. -/
def prepareRelationRoot (fuel : Nat) (root : TypeId) : PlannerM I Unit := do
  match ← tag env root with
  | .classInstance => .discard (projectClassOuter env root)
  | .deferredIndexedAccess | .keyof | .conditional | .instantiation | .mapped | .template
  | .declared => visitRelationRoot env fuel root
  | _ => pure ()

/-- `prepare_relation_roots`. -/
def prepareRelationRoots (fuel : Nat) (roots : List TypeId) : PlannerM I Unit :=
  .forEach (prepareRelationRoot env fuel) roots

/-- `plan_demand`, without `finish`. -/
def planDemand (fuel : Nat) (root : TypeId) : PlannerM I Unit := do
  match ← tag env root with
  | .classInstance => .discard (projectClassOuter env root)
  | .deferredIndexedAccess | .keyof | .conditional | .instantiation | .mapped | .template
  | .declared => .discard (visitWithPolicy env fuel root .demandOuterOnly)
  | _ => pure ()

end Methods

/-- `ProjectionPlanner::new`. -/
def new {I : Type} (interner : I)
    (durableProjectionMemo durableEvaluationMemo : FxHashMap TypeId TypeId) (nextTypeParam : Nat)
    (libraryObjectContext : Option LibraryObjectRelationContext) : Planner I where
  interner := interner
  durableProjectionMemo := durableProjectionMemo
  durableEvaluationMemo := durableEvaluationMemo
  nextTypeParam := nextTypeParam
  plan := {
    durableEvaluationMemo := some durableEvaluationMemo
    libraryObjectContext := libraryObjectContext }

end Planner

end Typokat.Query
