import Typokat.Lib.Attempt
import Typokat.Query.Speculation
import Typokat.Types.Memo

/-!
# Return-Context Inference (`typokat-check/src/check/infer/mod.rs`)

A generic call infers its type arguments from its arguments first.  What is still free then may
be inferred from the type that is expected of the result.  That second inference is optional:
it either completes, and every constraint that it touches is checked, or nothing of it remains.

The questions to the query coordinator are operations that write to the durable query state and
that nothing else is assumed about.

## Main Definitions

- `QueryOperation` : a question to the coordinator
- `applyReturnContextCandidates`, `inferSignatureTypeArguments` : the two functions

## Main Results

- `within_proposeReturnContext` : what the attempt does to the query state
- `return_context_optional_and_atomic` : **the attempt is taken whole or leaves no trace**
-/

namespace Typokat.Check.ReturnContext

open Types Query Lib Attempt

/-! ## §1 Operations -/

/-- What an inference changes: the interner, the counter of type parameters and the query state. -/
structure InferenceState where
  interner : Interner
  nextTypeParam : Nat
  queries : SemanticQueryState

/-- A question to the query coordinator.  It may write to the query state, but opens and closes
    no savepoints. -/
structure QueryOperation (A B : Type) where
  run : A → InferenceState → B × InferenceState
  writes : ∀ input state, ∃ writes : List SemanticWrite,
    (run input state).2.queries = state.queries.writeAll writes

/-- `RelationOutcome`. -/
inductive RelationOutcome (Exhaustion : Type)
  | yes
  | no
  | exhausted (reason : Exhaustion)

structure CallSiteCandidate where
  ty : TypeId
  fresh : Bool

/-- `CallSiteCandidates`, in the order that the map is iterated in. -/
abbrev CallSiteCandidates := List (TypeParamId × List CallSiteCandidate)

structure CandidateCollectionResult (Exhaustion : Type) where
  candidates : CallSiteCandidates
  exhaustion : Option Exhaustion

structure SignatureInferenceRequest where
  typeParams : List GenericTypeParam
  params : List ParameterType
  args : List TypeId
  freshArgs : List Bool
  receiver : Option (TypeId × TypeId)

structure CandidateCollectionRequest where
  activeParams : FxHashSet TypeParamId
  params : List ParameterType
  args : List TypeId
  freshArgs : List Bool
  receiver : Option (TypeId × TypeId)

structure FixedSignatureParams where
  arguments : FxHashMap TypeParamId TypeId
  constraintViolations : FxHashSet TypeParamId

structure SignatureInferenceResult (Exhaustion : Type) where
  arguments : FxHashMap TypeParamId TypeId
  exhaustion : Option Exhaustion
  constraintViolations : FxHashSet TypeParamId

structure ReturnContextInferenceRequest where
  typeParams : List GenericTypeParam
  activeParams : FxHashSet TypeParamId
  ordinaryBound : FxHashSet TypeParamId
  constraints : FxHashMap TypeParamId (Option TypeId)
  baseline : FixedSignatureParams
  source : TypeId
  target : TypeId

/-- The operations that inference asks: candidate collection, fixing the candidates of one
    parameter, evaluation and assignability. -/
structure InferenceOperations (Exhaustion : Type) where
  collectCallSiteCandidatesQuery :
    QueryOperation CandidateCollectionRequest (CandidateCollectionResult Exhaustion)
  collectReturnContextCandidatesQuery :
    QueryOperation (FxHashSet TypeParamId × TypeId × TypeId) (CandidateCollectionResult Exhaustion)
  fixCallSiteCandidatesForParam :
    QueryOperation (Option TypeId × List CallSiteCandidate) (Except Exhaustion (Option TypeId))
  demand : QueryOperation TypeId (Except Exhaustion TypeId)
  isAssignable : QueryOperation (TypeId × TypeId) (RelationOutcome Exhaustion)
  containsDeferredKeyof : QueryOperation TypeId Bool

/-- Why an inference has no result. -/
inductive Stop
  /-- a substitution that runs out of fuel -/
  | substitution (interner : Interner) (ty : TypeId) (map : FxHashMap TypeParamId TypeId)
  /-- the panic of a commit or a rollback without a savepoint -/
  | unmatched

section Inference

variable (structuralHash : StructuralKey → Nat) (fuel : Nat) {Exhaustion : Type}
variable (ops : InferenceOperations Exhaustion)

/-- An attempt on the inference state; a failure is a value of `F`. -/
abbrev Inference (F A : Type) := Attempt InferenceState Stop F A

/-- Ask an operation that always has an answer. -/
def ask {F A B : Type} (operation : QueryOperation A B) (input : A) : Inference F B :=
  Attempt.step (fun state => (.ok (operation.run input state).1, (operation.run input state).2))

/-- Ask an operation that may be exhausted. -/
def askDemand {A B : Type} (operation : QueryOperation A (Except Exhaustion B)) (input : A) :
    Inference Exhaustion B :=
  Attempt.step (operation.run input)

/-- `substitute`. -/
def substituteIn {F : Type} (ty : TypeId) (map : FxHashMap TypeParamId TypeId) :
    Inference F TypeId :=
  ⟨fun state =>
    match substitute structuralHash fuel state.interner ty map with
    | none => .error (.substitution state.interner ty map)
    | some (result, interner) => .ok (.ok result, { state with interner })⟩

/-- `interner.well_known().unknown`. -/
def wellKnownUnknown {F : Type} : Inference F TypeId :=
  Attempt.step (fun state => (.ok state.interner.wellKnown.unknown, state))

/-! ## §2 Fixing the parameters -/

/-- `fix_call_site_candidates`. -/
def fixCallSiteCandidates (constraints : FxHashMap TypeParamId (Option TypeId)) :
    CallSiteCandidates → FxHashMap TypeParamId TypeId →
      Inference Exhaustion (FxHashMap TypeParamId TypeId)
  | [], map => pure map
  | (param, candidates) :: rest, map => do
    let fixed ← askDemand ops.fixCallSiteCandidatesForParam
      ((constraints.lookup param).join, candidates)
    fixCallSiteCandidates constraints rest
      (match fixed with
        | some fixed => map.insert param fixed
        | none => map)

/-- `fresh_exempt_params`. -/
def freshExemptParams (candidates : CallSiteCandidates) : FxHashSet TypeParamId :=
  ((candidates.filter (fun entry =>
    !entry.2.isEmpty && entry.2.all CallSiteCandidate.fresh)).map Prod.fst).toFinset

/-- The evaluated constraint of `fix_signature_params`; none when a deferred `keyof` is left. -/
def evaluateSignatureConstraint (raw : Option TypeId) (map : FxHashMap TypeParamId TypeId) :
    Inference Exhaustion (Option TypeId) :=
  match raw with
  | none => pure none
  | some constraint => do
    let substituted ← substituteIn structuralHash fuel constraint map
    let evaluated ← askDemand ops.demand substituted
    let deferred ← ask ops.containsDeferredKeyof evaluated
    pure (if deferred then none else some evaluated)

/-- The value of one parameter in `fix_signature_params`, and whether its candidate violates the
    constraint. -/
def fixSignatureParam (typeParam : GenericTypeParam) (freshExempt : FxHashSet TypeParamId)
    (unknown : TypeId) (map : FxHashMap TypeParamId TypeId) :
    Inference Exhaustion (TypeId × Bool) := do
  let constraint ← evaluateSignatureConstraint structuralHash fuel ops typeParam.constraint map
  match map.lookup typeParam.id, constraint with
  | some candidate, none => pure (candidate, false)
  | some candidate, some constraint => do
    match ← ask ops.isAssignable (candidate, constraint) with
    | .yes => pure (candidate, false)
    | .no => pure (if typeParam.id ∈ freshExempt then candidate else constraint, true)
    | .exhausted reason => Attempt.fail reason
  | none, constraint =>
    match typeParam.default with
    | some default => do
      let value ← substituteIn structuralHash fuel default map
      pure (value, false)
    | none => pure (constraint.getD unknown, false)

/-- `fix_signature_params`. -/
def fixSignatureParams (freshExempt : FxHashSet TypeParamId) (unknown : TypeId) :
    List GenericTypeParam → FixedSignatureParams → Inference Exhaustion FixedSignatureParams
  | [], fixed => pure fixed
  | typeParam :: rest, fixed => do
    let (value, violates) ←
      fixSignatureParam structuralHash fuel ops typeParam freshExempt unknown fixed.arguments
    fixSignatureParams freshExempt unknown rest
      { arguments := fixed.arguments.insert typeParam.id value
        constraintViolations :=
          if violates then insert typeParam.id fixed.constraintViolations
          else fixed.constraintViolations }

/-! ## §3 Return-context candidates

`Inference Unit` gives up with nothing to say about why. -/

/-- The loop of `substitute_to_fixed_point`, with its last check. -/
def substituteLoop {F : Type} (map : FxHashMap TypeParamId TypeId) :
    Nat → TypeId → Inference F (Option TypeId)
  | 0, current => do
    let next ← substituteIn structuralHash fuel current map
    pure (if next = current then some current else none)
  | rounds + 1, current => do
    let next ← substituteIn structuralHash fuel current map
    if next = current then pure (some current) else substituteLoop map rounds next

/-- `substitute_to_fixed_point`. -/
def substituteToFixedPoint {F : Type} (ty : TypeId) (map : FxHashMap TypeParamId TypeId) :
    Inference F (Option TypeId) :=
  substituteLoop structuralHash fuel map (map.keys.card + 1) ty

/-- A fixed point, or giving up. -/
def fixedPointOf (ty : TypeId) (map : FxHashMap TypeParamId TypeId) : Inference Unit TypeId := do
  let found ← substituteToFixedPoint structuralHash fuel ty map
  Attempt.ofOption () found

/-- `evaluate_return_context_constraint`; `None` gives up. -/
def evaluateReturnContextConstraint (constraint : TypeId) : Inference Unit TypeId := do
  match ← ask ops.demand constraint with
  | .error _ => Attempt.fail ()
  | .ok evaluated => do
    let deferred ← ask ops.containsDeferredKeyof evaluated
    if deferred then Attempt.fail () else pure evaluated

/-- The default of a parameter, or its constraint, under the baseline and under the proposal; what
    is the same under both keeps the baseline's argument. -/
def recomputeFallback (raw param : TypeId) (baseline proposal : FxHashMap TypeParamId TypeId)
    (changed : TypeId → Inference Unit TypeId) : Inference Unit TypeId := do
  let underBaseline ← fixedPointOf structuralHash fuel raw baseline
  let underProposal ← fixedPointOf structuralHash fuel raw proposal
  if underProposal = underBaseline then Attempt.ofOption () (baseline.lookup param)
  else changed underProposal

/-- The argument of one parameter in a round of the recomputation. -/
def recomputeParam (request : ReturnContextInferenceRequest)
    (contextual proposal : FxHashMap TypeParamId TypeId) (typeParam : GenericTypeParam) :
    Inference Unit TypeId :=
  let baseline := request.baseline.arguments
  if typeParam.id ∈ request.ordinaryBound then
    Attempt.ofOption () (baseline.lookup typeParam.id)
  else
    match contextual.lookup typeParam.id, typeParam.default, typeParam.constraint with
    | some candidate, _, _ => fixedPointOf structuralHash fuel candidate proposal
    | none, some default, _ =>
      recomputeFallback structuralHash fuel default typeParam.id baseline proposal pure
    | none, none, some constraint =>
      recomputeFallback structuralHash fuel constraint typeParam.id baseline proposal
        (evaluateReturnContextConstraint ops)
    | none, none, none => Attempt.ofOption () (baseline.lookup typeParam.id)

/-- One round: all parameters from the same proposal. -/
def recompute (request : ReturnContextInferenceRequest)
    (contextual proposal : FxHashMap TypeParamId TypeId) :
    List GenericTypeParam → FxHashMap TypeParamId TypeId →
      Inference Unit (FxHashMap TypeParamId TypeId)
  | [], next => pure next
  | typeParam :: rest, next => do
    let value ← recomputeParam structuralHash fuel ops request contextual proposal typeParam
    recompute request contextual proposal rest (next.insert typeParam.id value)

/-- The rounds until nothing changes. -/
def stabilize (request : ReturnContextInferenceRequest)
    (contextual : FxHashMap TypeParamId TypeId) :
    Nat → FxHashMap TypeParamId TypeId → Inference Unit (FxHashMap TypeParamId TypeId)
  | 0, _ => Attempt.fail ()
  | rounds + 1, proposal => do
    let next ←
      recompute structuralHash fuel ops request contextual proposal request.typeParams proposal
    if next = proposal then pure proposal else stabilize request contextual rounds next

/-- The check of one constraint. -/
def validateConstraint (request : ReturnContextInferenceRequest)
    (contextual proposal : FxHashMap TypeParamId TypeId) (param : TypeParamId) (raw : TypeId) :
    Inference Unit Unit := do
  let baseline := request.baseline.arguments
  let baselineConstraint ← fixedPointOf structuralHash fuel raw baseline
  let proposedConstraint ← fixedPointOf structuralHash fuel raw proposal
  if param ∈ contextual ∨ proposal.lookup param ≠ baseline.lookup param
      ∨ proposedConstraint ≠ baselineConstraint then do
    let candidate ← Attempt.ofOption () (proposal.lookup param)
    let evaluated ← evaluateReturnContextConstraint ops proposedConstraint
    match ← ask ops.isAssignable (candidate, evaluated) with
    | .yes => pure ()
    | .no => Attempt.fail ()
    | .exhausted _ => Attempt.fail ()
  else pure ()

/-- The checks of all constraints. -/
def validate (request : ReturnContextInferenceRequest)
    (contextual proposal : FxHashMap TypeParamId TypeId) :
    List GenericTypeParam → Inference Unit Unit
  | [] => pure ()
  | typeParam :: rest =>
    match typeParam.constraint with
    | none => validate request contextual proposal rest
    | some raw => do
      validateConstraint structuralHash fuel ops request contextual proposal typeParam.id raw
      validate request contextual proposal rest

/-- The contextual candidates, fixed. -/
def contextualArguments (request : ReturnContextInferenceRequest) :
    Inference Unit (FxHashMap TypeParamId TypeId) := do
  let collection ← ask ops.collectReturnContextCandidatesQuery
    (request.activeParams \ request.ordinaryBound, request.source, request.target)
  if collection.exhaustion.isSome ∨ collection.candidates = [] then Attempt.fail ()
  else do
    let contextual ← Attempt.mapFailure (fun _ => ())
      (fixCallSiteCandidates ops request.constraints collection.candidates ∅)
    if contextual = ∅ then Attempt.fail () else pure contextual

/-- What `apply_return_context_candidates` does between its savepoint and its commit; where the
    source rolls back and returns the baseline, this gives up. -/
def proposeReturnContext (request : ReturnContextInferenceRequest) :
    Inference Unit (FxHashMap TypeParamId TypeId) := do
  let contextual ← contextualArguments ops request
  let proposal ← stabilize structuralHash fuel ops request contextual
    (request.typeParams.length + 1) (contextual ∪ request.baseline.arguments)
  validate structuralHash fuel ops request contextual proposal request.typeParams
  pure proposal

/-! ## §4 Transactions -/

/-- `queries.savepoint()`. -/
def InferenceState.savepoint (state : InferenceState) : InferenceState :=
  { state with queries := state.queries.savepoint }

/-- `queries.commit()` before a return. -/
def committed {A : Type} (result : A) (state : InferenceState) :
    Except Stop (A × InferenceState) :=
  match state.queries.commit with
  | none => .error .unmatched
  | some queries => .ok (result, { state with queries })

/-- `queries.rollback()` before a return. -/
def rolledBack {A : Type} (result : A) (state : InferenceState) :
    Except Stop (A × InferenceState) :=
  match state.queries.rollback with
  | none => .error .unmatched
  | some queries => .ok (result, { state with queries })

/-- `apply_return_context_candidates`. -/
def applyReturnContextCandidates (request : ReturnContextInferenceRequest)
    (state : InferenceState) : Except Stop (FixedSignatureParams × InferenceState) :=
  if request.activeParams \ request.ordinaryBound = ∅ then .ok (request.baseline, state)
  else
    match (proposeReturnContext structuralHash fuel ops request).run state.savepoint with
    | .error stop => .error stop
    | .ok (.error _, state) => rolledBack request.baseline state
    | .ok (.ok proposal, state) =>
      committed ⟨proposal, request.baseline.constraintViolations⟩ state

/-- The constraints of a signature by parameter. -/
def signatureConstraints (typeParams : List GenericTypeParam) :
    FxHashMap TypeParamId (Option TypeId) :=
  typeParams.foldl (fun constraints param => constraints.insert param.id param.constraint) ∅

/-- The arguments that the call itself fixes. -/
def fixOrdinary (request : SignatureInferenceRequest) (candidates : CallSiteCandidates) :
    Inference Exhaustion FixedSignatureParams := do
  let fixed ←
    fixCallSiteCandidates ops (signatureConstraints request.typeParams) candidates ∅
  let unknown ← wellKnownUnknown
  fixSignatureParams structuralHash fuel ops (freshExemptParams candidates) unknown
    request.typeParams ⟨fixed, ∅⟩

/-- `infer_signature_type_arguments`. -/
def inferSignatureTypeArguments (request : SignatureInferenceRequest)
    (returnContext : Option (TypeId × TypeId)) (state : InferenceState) :
    Except Stop (Except Exhaustion (SignatureInferenceResult Exhaustion) × InferenceState) :=
  let activeParams := (request.typeParams.map GenericTypeParam.id).toFinset
  let collected := ops.collectCallSiteCandidatesQuery.run
    ⟨activeParams, request.params, request.args, request.freshArgs, request.receiver⟩
    state.savepoint
  let collection := collected.1
  match (fixOrdinary structuralHash fuel ops request collection.candidates).run collected.2 with
  | .error stop => .error stop
  | .ok (.error exhaustion, state) => rolledBack (.error exhaustion) state
  | .ok (.ok fixed, state) =>
    match collection.exhaustion with
    | some exhaustion =>
      rolledBack (.ok ⟨fixed.arguments, some exhaustion, fixed.constraintViolations⟩) state
    | none =>
      match returnContext with
      | none => committed (.ok ⟨fixed.arguments, none, fixed.constraintViolations⟩) state
      | some (source, target) =>
        match applyReturnContextCandidates structuralHash fuel ops
            { typeParams := request.typeParams
              activeParams := activeParams
              ordinaryBound := (collection.candidates.map Prod.fst).toFinset
              constraints := signatureConstraints request.typeParams
              baseline := fixed
              source := source
              target := target } state with
        | .error stop => .error stop
        | .ok (fixed, state) =>
          committed (.ok ⟨fixed.arguments, none, fixed.constraintViolations⟩) state

/-! ## §5 What an attempt does to the query state -/

section Writes

variable {ops}

/-- The query state is only written to. -/
def Writes (state state' : InferenceState) : Prop :=
  ∃ writes : List SemanticWrite, state'.queries = state.queries.writeAll writes

theorem writes_refl (state : InferenceState) : Writes state state := ⟨[], rfl⟩

theorem Writes.trans {a b c : InferenceState} (hab : Writes a b) (hbc : Writes b c) :
    Writes a c := by
  obtain ⟨first, hfirst⟩ := hab
  obtain ⟨second, hsecond⟩ := hbc
  refine ⟨first ++ second, ?_⟩
  rw [hsecond, hfirst, SemanticQueryState.writeAll_append]

/-- The stop is a substitution that returns on no fuel. -/
def Stuck : Stop → Prop
  | .substitution interner ty map => ∀ fuel, substitute structuralHash fuel interner ty map = none
  | .unmatched => False

/-- The inference only writes, and enough fuel decides how it ends. -/
abbrev OnlyWrites {F A : Type} (x : Nat → Inference F A) : Prop :=
  Attempt.Settles Writes (Stuck structuralHash) x

variable {structuralHash}

theorem onlyWrites_pure {F A : Type} (a : A) :
    OnlyWrites structuralHash (fun _ => (pure a : Inference F A)) :=
  settles_pure writes_refl a

theorem onlyWrites_fail {F A : Type} (failure : F) :
    OnlyWrites structuralHash (fun _ => (fail failure : Inference F A)) :=
  settles_fail writes_refl failure

theorem onlyWrites_ofOption {A : Type} (a : Option A) :
    OnlyWrites structuralHash (fun _ => (ofOption () a : Inference Unit A)) :=
  settles_ofOption writes_refl () a

theorem OnlyWrites.bind {F A B : Type} {x : Nat → Inference F A} {f : Nat → A → Inference F B}
    (hx : OnlyWrites structuralHash x) (hf : ∀ a, OnlyWrites structuralHash (fun fuel => f fuel a)) :
    OnlyWrites structuralHash (fun fuel => x fuel >>= f fuel) :=
  Attempt.Settles.bind (R := Writes) (fun _ _ _ => Writes.trans) hx hf

theorem onlyWrites_ask {F A B : Type} (operation : QueryOperation A B) (input : A) :
    OnlyWrites structuralHash (fun _ => (ask operation input : Inference F B)) :=
  settles_of_run (fun state => ⟨_, _, operation.writes input state, rfl⟩)

theorem onlyWrites_askDemand {A B : Type} (operation : QueryOperation A (Except Exhaustion B))
    (input : A) : OnlyWrites structuralHash (fun _ => askDemand operation input) :=
  settles_of_run (fun state => ⟨_, _, operation.writes input state, rfl⟩)

theorem onlyWrites_wellKnownUnknown {F : Type} :
    OnlyWrites structuralHash (fun _ => (wellKnownUnknown : Inference F TypeId)) :=
  settles_of_run (fun state => ⟨_, _, writes_refl state, rfl⟩)

/-- A substitution that returns on some fuel returns the same on more. -/
theorem onlyWrites_substituteIn {F : Type} (ty : TypeId) (map : FxHashMap TypeParamId TypeId) :
    OnlyWrites structuralHash
      (fun fuel => (substituteIn structuralHash fuel ty map : Inference F TypeId)) := by
  have hsome : ∀ {n m state result}, n ≤ m →
      substitute structuralHash n state.interner ty map = some result →
      (substituteIn structuralHash m ty map : Inference F TypeId).run state =
        .ok (.ok result.1, { state with interner := result.2 }) := by
    intro n m state result hnm hresult
    unfold substituteIn
    dsimp only
    rw [substitute_mono hnm hresult]
  have hnone : ∀ {n state}, substitute structuralHash n state.interner ty map = none →
      (substituteIn structuralHash n ty map : Inference F TypeId).run state =
        .error (.substitution state.interner ty map) := by
    intro n state hresult
    unfold substituteIn
    dsimp only
    rw [hresult]
  constructor
  · intro n m state result hnm h
    cases hresult : substitute structuralHash n state.interner ty map with
    | none =>
      rw [hnone hresult] at h
      cases h
    | some out => exact (hsome hnm hresult).trans ((hsome le_rfl hresult).symm.trans h)
  · intro state
    by_cases hstuck : ∀ n, substitute structuralHash n state.interner ty map = none
    · exact ⟨0, Or.inl ⟨.substitution state.interner ty map, hstuck, fun n _ => hnone (hstuck n)⟩⟩
    · push Not at hstuck
      obtain ⟨n, hresult⟩ := hstuck
      obtain ⟨result, hresult⟩ := Option.ne_none_iff_exists'.mp hresult
      exact ⟨n, Or.inr ⟨.ok result.1, { state with interner := result.2 }, writes_refl state,
        fun m hm => hsome hm hresult⟩⟩

theorem onlyWrites_fixCallSiteCandidates (constraints : FxHashMap TypeParamId (Option TypeId))
    (candidates : CallSiteCandidates) (map : FxHashMap TypeParamId TypeId) :
    OnlyWrites structuralHash (fun _ => fixCallSiteCandidates ops constraints candidates map) := by
  induction candidates generalizing map with
  | nil => exact onlyWrites_pure map
  | cons entry rest ih => exact (onlyWrites_askDemand _ _).bind (fun _ => ih _)

theorem onlyWrites_evaluateSignatureConstraint (raw : Option TypeId)
    (map : FxHashMap TypeParamId TypeId) :
    OnlyWrites structuralHash
      (fun fuel => evaluateSignatureConstraint structuralHash fuel ops raw map) := by
  unfold evaluateSignatureConstraint
  cases raw with
  | none => exact onlyWrites_pure none
  | some constraint =>
    apply (onlyWrites_substituteIn _ _).bind
    intro substituted
    apply (onlyWrites_askDemand _ _).bind
    intro evaluated
    exact (onlyWrites_ask _ _).bind (fun _ => onlyWrites_pure _)

theorem onlyWrites_fixSignatureParam (typeParam : GenericTypeParam)
    (freshExempt : FxHashSet TypeParamId) (unknown : TypeId) (map : FxHashMap TypeParamId TypeId) :
    OnlyWrites structuralHash (fun fuel =>
      fixSignatureParam structuralHash fuel ops typeParam freshExempt unknown map) := by
  unfold fixSignatureParam
  apply (onlyWrites_evaluateSignatureConstraint _ _).bind
  intro constraint
  cases map.lookup typeParam.id with
  | some candidate =>
    cases constraint with
    | none => exact onlyWrites_pure _
    | some constraint =>
      apply (onlyWrites_ask _ _).bind
      intro outcome
      cases outcome with
      | yes => exact onlyWrites_pure _
      | no => exact onlyWrites_pure _
      | exhausted reason => exact onlyWrites_fail reason
  | none =>
    cases typeParam.default with
    | none => exact onlyWrites_pure _
    | some default => exact (onlyWrites_substituteIn _ _).bind (fun _ => onlyWrites_pure _)

theorem onlyWrites_fixSignatureParams (freshExempt : FxHashSet TypeParamId) (unknown : TypeId)
    (typeParams : List GenericTypeParam) (fixed : FixedSignatureParams) :
    OnlyWrites structuralHash
      (fun fuel => fixSignatureParams structuralHash fuel ops freshExempt unknown typeParams
        fixed) := by
  induction typeParams generalizing fixed with
  | nil => exact onlyWrites_pure fixed
  | cons typeParam rest ih =>
    exact (onlyWrites_fixSignatureParam _ _ _ _).bind (fun _ => ih _)

theorem onlyWrites_fixOrdinary (request : SignatureInferenceRequest)
    (candidates : CallSiteCandidates) :
    OnlyWrites structuralHash
      (fun fuel => fixOrdinary structuralHash fuel ops request candidates) := by
  unfold fixOrdinary
  apply (onlyWrites_fixCallSiteCandidates _ _ _).bind
  intro fixed
  apply onlyWrites_wellKnownUnknown.bind
  intro unknown
  exact onlyWrites_fixSignatureParams _ _ _ _

theorem onlyWrites_fixedPointOf (ty : TypeId) (map : FxHashMap TypeParamId TypeId) :
    OnlyWrites structuralHash (fun fuel => fixedPointOf structuralHash fuel ty map) := by
  have hloop : ∀ rounds current, OnlyWrites structuralHash
      (fun fuel =>
      (substituteLoop structuralHash fuel map rounds current : Inference Unit (Option TypeId))) := by
    intro rounds
    induction rounds with
    | zero =>
      intro current
      exact (onlyWrites_substituteIn _ _).bind (fun _ => onlyWrites_pure _)
    | succ rounds ih =>
      intro current
      apply (onlyWrites_substituteIn _ _).bind
      intro next
      by_cases hnext : next = current
      · simp only [if_pos hnext]
        exact onlyWrites_pure _
      · simp only [if_neg hnext]
        exact ih next
  exact (hloop _ _).bind (fun found => onlyWrites_ofOption found)

theorem onlyWrites_evaluateReturnContextConstraint (constraint : TypeId) :
    OnlyWrites structuralHash (fun _ => evaluateReturnContextConstraint ops constraint) := by
  unfold evaluateReturnContextConstraint
  apply (onlyWrites_ask _ _).bind
  intro demanded
  cases demanded with
  | error reason => exact onlyWrites_fail ()
  | ok evaluated =>
    apply (onlyWrites_ask _ _).bind
    intro deferred
    cases deferred with
    | true => exact onlyWrites_fail ()
    | false => exact onlyWrites_pure evaluated

theorem onlyWrites_recomputeFallback (raw param : TypeId)
    (baseline proposal : FxHashMap TypeParamId TypeId) {changed : Nat → TypeId → Inference Unit TypeId}
    (hchanged : ∀ ty, OnlyWrites structuralHash (fun fuel => changed fuel ty)) :
    OnlyWrites structuralHash (fun fuel =>
      recomputeFallback structuralHash fuel raw param baseline proposal (changed fuel)) := by
  unfold recomputeFallback
  apply (onlyWrites_fixedPointOf _ _).bind
  intro underBaseline
  apply (onlyWrites_fixedPointOf _ _).bind
  intro underProposal
  by_cases hsame : underProposal = underBaseline
  · simp only [if_pos hsame]
    exact onlyWrites_ofOption _
  · simp only [if_neg hsame]
    exact hchanged underProposal

variable {request : ReturnContextInferenceRequest} {contextual : FxHashMap TypeParamId TypeId}

theorem onlyWrites_recomputeParam (proposal : FxHashMap TypeParamId TypeId)
    (typeParam : GenericTypeParam) :
    OnlyWrites structuralHash
      (fun fuel => recomputeParam structuralHash fuel ops request contextual proposal typeParam) := by
  unfold recomputeParam
  dsimp only
  by_cases hordinary : typeParam.id ∈ request.ordinaryBound
  · simp only [if_pos hordinary]
    exact onlyWrites_ofOption _
  · simp only [if_neg hordinary]
    cases contextual.lookup typeParam.id with
    | some candidate => exact onlyWrites_fixedPointOf _ _
    | none =>
      cases typeParam.default with
      | some default => exact onlyWrites_recomputeFallback _ _ _ _ onlyWrites_pure
      | none =>
        cases typeParam.constraint with
        | some constraint =>
          exact onlyWrites_recomputeFallback _ _ _ _ onlyWrites_evaluateReturnContextConstraint
        | none => exact onlyWrites_ofOption _

theorem onlyWrites_recompute (proposal next : FxHashMap TypeParamId TypeId)
    (typeParams : List GenericTypeParam) :
    OnlyWrites structuralHash
      (fun fuel => recompute structuralHash fuel ops request contextual proposal typeParams next) := by
  induction typeParams generalizing next with
  | nil => exact onlyWrites_pure next
  | cons typeParam rest ih => exact (onlyWrites_recomputeParam _ _).bind (fun _ => ih _)

theorem onlyWrites_stabilize (rounds : Nat) (proposal : FxHashMap TypeParamId TypeId) :
    OnlyWrites structuralHash
      (fun fuel => stabilize structuralHash fuel ops request contextual rounds proposal) := by
  induction rounds generalizing proposal with
  | zero => exact onlyWrites_fail ()
  | succ rounds ih =>
    apply (onlyWrites_recompute _ _ _).bind
    intro next
    by_cases hnext : next = proposal
    · simp only [if_pos hnext]
      exact onlyWrites_pure proposal
    · simp only [if_neg hnext]
      exact ih next

theorem onlyWrites_validateConstraint (proposal : FxHashMap TypeParamId TypeId)
    (param : TypeParamId) (raw : TypeId) :
    OnlyWrites structuralHash
      (fun fuel => validateConstraint structuralHash fuel ops request contextual proposal param
        raw) := by
  unfold validateConstraint
  apply (onlyWrites_fixedPointOf _ _).bind
  intro baselineConstraint
  apply (onlyWrites_fixedPointOf _ _).bind
  intro proposedConstraint
  by_cases haffected : param ∈ contextual ∨
      proposal.lookup param ≠ request.baseline.arguments.lookup param ∨
        proposedConstraint ≠ baselineConstraint
  · simp only [if_pos haffected]
    apply (onlyWrites_ofOption _).bind
    intro candidate
    apply (onlyWrites_evaluateReturnContextConstraint _).bind
    intro evaluated
    apply (onlyWrites_ask _ _).bind
    intro outcome
    cases outcome with
    | yes => exact onlyWrites_pure ()
    | no => exact onlyWrites_fail ()
    | exhausted reason => exact onlyWrites_fail ()
  · simp only [if_neg haffected]
    exact onlyWrites_pure ()

theorem onlyWrites_validate (proposal : FxHashMap TypeParamId TypeId)
    (typeParams : List GenericTypeParam) :
    OnlyWrites structuralHash
      (fun fuel => validate structuralHash fuel ops request contextual proposal typeParams) := by
  induction typeParams with
  | nil => exact onlyWrites_pure ()
  | cons typeParam rest ih =>
    unfold validate
    cases typeParam.constraint with
    | none => exact ih
    | some raw => exact (onlyWrites_validateConstraint _ _ _).bind (fun _ => ih)

theorem onlyWrites_contextualArguments :
    OnlyWrites structuralHash (fun _ => contextualArguments ops request) := by
  unfold contextualArguments
  apply (onlyWrites_ask _ _).bind
  intro collection
  by_cases hnothing : collection.exhaustion.isSome ∨ collection.candidates = []
  · simp only [if_pos hnothing]
    exact onlyWrites_fail ()
  · simp only [if_neg hnothing]
    apply OnlyWrites.bind (onlyWrites_fixCallSiteCandidates _ _ _).mapFailure
    intro contextual
    by_cases hempty : contextual = ∅
    · simp only [if_pos hempty]
      exact onlyWrites_fail ()
    · simp only [if_neg hempty]
      exact onlyWrites_pure contextual

/-- **The attempt only writes**, whichever way it ends. -/
theorem within_proposeReturnContext :
    OnlyWrites structuralHash (fun fuel => proposeReturnContext structuralHash fuel ops request) := by
  unfold proposeReturnContext
  apply onlyWrites_contextualArguments.bind
  intro contextual
  apply (onlyWrites_stabilize _ _).bind
  intro proposal
  exact (onlyWrites_validate _ _).bind (fun _ => onlyWrites_pure proposal)

end Writes

/-! ## §6 What is accepted -/

/-- What was asked about the constraints, one after the other in a run: a constraint that neither
    the proposal nor the contextual evidence touches is passed over, and every other one was
    answered `Yes` for the parameter's argument. -/
inductive ConstraintsAnswered (request : ReturnContextInferenceRequest)
    (contextual arguments : FxHashMap TypeParamId TypeId) :
    List GenericTypeParam → InferenceState → InferenceState → Prop
  | nil (state : InferenceState) : ConstraintsAnswered request contextual arguments [] state state
  | unconstrained {typeParam : GenericTypeParam} {rest : List GenericTypeParam}
      {state final : InferenceState} (hnone : typeParam.constraint = none)
      (hrest : ConstraintsAnswered request contextual arguments rest state final) :
      ConstraintsAnswered request contextual arguments (typeParam :: rest) state final
  | unaffected {typeParam : GenericTypeParam} {rest : List GenericTypeParam}
      {raw constraint : TypeId} {state state₁ state₂ final : InferenceState}
      (hraw : typeParam.constraint = some raw)
      (hbaseline : (fixedPointOf structuralHash fuel raw request.baseline.arguments).run state =
        .ok (.ok constraint, state₁))
      (hproposed : (fixedPointOf structuralHash fuel raw arguments).run state₁ =
        .ok (.ok constraint, state₂))
      (hcontextual : typeParam.id ∉ contextual)
      (hvalue : arguments.lookup typeParam.id = request.baseline.arguments.lookup typeParam.id)
      (hrest : ConstraintsAnswered request contextual arguments rest state₂ final) :
      ConstraintsAnswered request contextual arguments (typeParam :: rest) state final
  | affirmed {typeParam : GenericTypeParam} {rest : List GenericTypeParam}
      {raw baselineConstraint constraint candidate evaluated : TypeId}
      {state state₁ state₂ state₃ state₄ final : InferenceState}
      (hraw : typeParam.constraint = some raw)
      (hbaseline : (fixedPointOf structuralHash fuel raw request.baseline.arguments).run state =
        .ok (.ok baselineConstraint, state₁))
      (hproposed : (fixedPointOf structuralHash fuel raw arguments).run state₁ =
        .ok (.ok constraint, state₂))
      (hcandidate : arguments.lookup typeParam.id = some candidate)
      (hevaluated : (evaluateReturnContextConstraint ops constraint).run state₂ =
        .ok (.ok evaluated, state₃))
      (hyes : ops.isAssignable.run (candidate, evaluated) state₃ = (.yes, state₄))
      (hrest : ConstraintsAnswered request contextual arguments rest state₄ final) :
      ConstraintsAnswered request contextual arguments (typeParam :: rest) state final

/-- The contextual evidence was taken, in a run from `state` to `final`. -/
structure Accepted (request : ReturnContextInferenceRequest) (state : InferenceState)
    (result : FixedSignatureParams) (final : InferenceState)
    (contextual : FxHashMap TypeParamId TypeId) : Prop where
  /-- an ordinarily bound parameter keeps its argument -/
  ordinary_eq : ∀ typeParam ∈ request.typeParams, typeParam.id ∈ request.ordinaryBound →
    result.arguments.lookup typeParam.id = request.baseline.arguments.lookup typeParam.id
  /-- so does every other binder that there is no contextual evidence for -/
  elsewhere_eq : ∀ param ∉ request.typeParams.map GenericTypeParam.id, param ∉ contextual →
    result.arguments.lookup param = request.baseline.arguments.lookup param
  violations_eq : result.constraintViolations = request.baseline.constraintViolations
  /-- the evidence is found, the recomputation has become stable, and then every constraint is
      checked before the commit -/
  answered : ∃ found before stable validated,
    (contextualArguments ops request).run state.savepoint = .ok (.ok contextual, found) ∧
    Writes found before ∧
    (recompute structuralHash fuel ops request contextual result.arguments request.typeParams
      result.arguments).run before = .ok (.ok result.arguments, stable) ∧
    ConstraintsAnswered structuralHash fuel ops request contextual result.arguments
      request.typeParams stable validated ∧
    validated.queries.commit = some final.queries

section Accepting

variable {structuralHash} {fuel} {ops}
variable {request : ReturnContextInferenceRequest} {state final : InferenceState}
variable {contextual proposal next result : FxHashMap TypeParamId TypeId}
variable {typeParams : List GenericTypeParam}

/-- A round of the recomputation fills in the signature's parameters, the ordinarily bound ones
    from the baseline. -/
theorem recompute_spec
    (h : (recompute structuralHash fuel ops request contextual proposal typeParams next).run state =
      .ok (.ok result, final)) :
    (∀ param ∉ typeParams.map GenericTypeParam.id, result.lookup param = next.lookup param) ∧
    ∀ typeParam ∈ typeParams, typeParam.id ∈ request.ordinaryBound →
      result.lookup typeParam.id = request.baseline.arguments.lookup typeParam.id := by
  induction typeParams generalizing next state with
  | nil =>
    obtain ⟨rfl, -⟩ := pure_eq_ok.mp h
    exact ⟨fun _ _ => rfl, fun _ hmem => absurd hmem List.not_mem_nil⟩
  | cons typeParam rest ih =>
    obtain ⟨value, state₁, hvalue, hrest⟩ := bind_eq_ok.mp h
    obtain ⟨helsewhere, hordinary⟩ := ih hrest
    constructor
    · intro param hparam
      rw [List.map_cons, List.mem_cons, not_or] at hparam
      rw [helsewhere param hparam.2, Finmap.lookup_insert_of_ne _ hparam.1]
    · intro other hother hbound
      by_cases hlater : other.id ∈ rest.map GenericTypeParam.id
      · -- a later binder of the same parameter is filled in from the baseline, too
        obtain ⟨later, hmem, hid⟩ := List.mem_map.mp hlater
        rw [← hid] at hbound ⊢
        exact hordinary later hmem hbound
      · have hself : other = typeParam := by
          rcases List.mem_cons.mp hother with heq | hmem
          · exact heq
          · exact absurd (List.mem_map_of_mem hmem) hlater
        rw [helsewhere other.id hlater, hself, Finmap.lookup_insert]
        rw [hself] at hbound
        unfold recomputeParam at hvalue
        rw [if_pos hbound] at hvalue
        exact (ofOption_eq_ok.mp hvalue).1.symm

/-- The rounds end with one that changes nothing. -/
theorem stabilize_spec {rounds : Nat}
    (h : (stabilize structuralHash fuel ops request contextual rounds proposal).run state =
      .ok (.ok result, final)) :
    (∀ param ∉ request.typeParams.map GenericTypeParam.id,
      result.lookup param = proposal.lookup param) ∧
    ∃ before, Writes state before ∧
      (recompute structuralHash fuel ops request contextual result request.typeParams result).run
        before = .ok (.ok result, final) := by
  induction rounds generalizing proposal state with
  | zero => exact absurd h fail_ne_ok
  | succ rounds ih =>
    obtain ⟨next, state₁, hround, hnext⟩ := bind_eq_ok.mp h
    by_cases hsame : next = proposal
    · rw [if_pos hsame] at hnext
      obtain ⟨rfl, rfl⟩ := pure_eq_ok.mp hnext
      rw [hsame] at hround
      exact ⟨fun _ _ => rfl, state, writes_refl state, hround⟩
    · rw [if_neg hsame] at hnext
      obtain ⟨helsewhere, before, hwrites, hstable⟩ := ih hnext
      refine ⟨?_, before, ((onlyWrites_recompute _ _ _).moves hround).trans hwrites, hstable⟩
      intro param hparam
      rw [helsewhere param hparam, (recompute_spec hround).1 param hparam]

/-- The checks that passed. -/
theorem constraintsAnswered_of_validate
    (h : (validate structuralHash fuel ops request contextual proposal typeParams).run state =
      .ok (.ok (), final)) :
    ConstraintsAnswered structuralHash fuel ops request contextual proposal typeParams state
      final := by
  induction typeParams generalizing state with
  | nil =>
    obtain ⟨-, rfl⟩ := pure_eq_ok.mp h
    exact .nil state
  | cons typeParam rest ih =>
    unfold validate at h
    cases hraw : typeParam.constraint with
    | none =>
      rw [hraw] at h
      exact .unconstrained hraw (ih h)
    | some raw =>
      rw [hraw] at h
      obtain ⟨_, state', hchecked, hrest⟩ := bind_eq_ok.mp h
      unfold validateConstraint at hchecked
      obtain ⟨baselineConstraint, state₁, hbaseline, hchecked⟩ := bind_eq_ok.mp hchecked
      obtain ⟨constraint, state₂, hproposed, hchecked⟩ := bind_eq_ok.mp hchecked
      split at hchecked
      · obtain ⟨candidate, _, hoption, hchecked⟩ := bind_eq_ok.mp hchecked
        obtain ⟨hcandidate, rfl⟩ := ofOption_eq_ok.mp hoption
        obtain ⟨evaluated, state₃, hevaluated, hchecked⟩ := bind_eq_ok.mp hchecked
        obtain ⟨outcome, state₄, hasked, hchecked⟩ := bind_eq_ok.mp hchecked
        cases outcome with
        | yes =>
          obtain ⟨-, rfl⟩ := pure_eq_ok.mp hchecked
          have hyes : ops.isAssignable.run (candidate, evaluated) state₃ = (.yes, state₄) := by
            unfold ask step at hasked
            simp only [Except.ok.injEq, Prod.mk.injEq] at hasked
            exact Prod.ext hasked.1 hasked.2
          exact .affirmed hraw hbaseline hproposed hcandidate hevaluated hyes (ih hrest)
        | no => exact absurd hchecked fail_ne_ok
        | exhausted reason => exact absurd hchecked fail_ne_ok
      · rename_i hunaffected
        obtain ⟨-, rfl⟩ := pure_eq_ok.mp hchecked
        rw [not_or, not_or, not_not, not_not] at hunaffected
        obtain ⟨hcontextual, hvalue, hsame⟩ := hunaffected
        rw [hsame] at hproposed
        exact .unaffected hraw hbaseline hproposed hcontextual hvalue (ih hrest)

/-- **What a completed attempt satisfies**, when its commit closes the transaction. -/
theorem accepted_of_propose
    (h : (proposeReturnContext structuralHash fuel ops request).run state.savepoint =
      .ok (.ok proposal, final)) {queries : SemanticQueryState}
    (hcommit : final.queries.commit = some queries) :
    ∃ contextual, Accepted structuralHash fuel ops request state
      ⟨proposal, request.baseline.constraintViolations⟩ { final with queries } contextual := by
  obtain ⟨contextual, found, hfound, h⟩ := bind_eq_ok.mp h
  obtain ⟨stable, state₁, hstable, h⟩ := bind_eq_ok.mp h
  obtain ⟨_, state₂, hvalidated, h⟩ := bind_eq_ok.mp h
  obtain ⟨rfl, rfl⟩ := pure_eq_ok.mp h
  obtain ⟨helsewhere, before, hwrites, hround⟩ := stabilize_spec hstable
  refine ⟨contextual, (recompute_spec hround).2, ?_, rfl, found, before, state₁, state₂, hfound,
    hwrites, hround, constraintsAnswered_of_validate hvalidated, hcommit⟩
  intro param hparam hcontextual
  rw [helsewhere param hparam, Finmap.lookup_union_right hcontextual]

end Accepting

/-! ## §7 Transactions balance -/

section Balance

variable {structuralHash} {fuel} {ops}

/-- The events of a run balance, and the open savepoints are the same. -/
structure Balances (queries queries' : SemanticQueryState) : Prop where
  events : ∃ events : List (TxEvent SemanticWrite), Snapshot.Balanced events ∧
    run SemanticQueryState.step events queries = some queries'
  savepoints_eq : queries'.savepoints = queries.savepoints

theorem balances_of_events {events : List (TxEvent SemanticWrite)}
    (hbalanced : Snapshot.Balanced events) {queries queries' : SemanticQueryState}
    (hrun : run SemanticQueryState.step events queries = some queries') :
    Balances queries queries' :=
  ⟨⟨events, hbalanced, hrun⟩, SemanticQueryState.savepoints_of_balanced hbalanced hrun⟩

theorem balances_refl (queries : SemanticQueryState) : Balances queries queries :=
  balances_of_events .nil rfl

/-- Writes in front. -/
theorem Balances.writeAll {queries queries' : SemanticQueryState} {writes : List SemanticWrite}
    (h : Balances (queries.writeAll writes) queries') : Balances queries queries' := by
  obtain ⟨events, hbalanced, hrun⟩ := h.events
  apply balances_of_events (SemanticQueryState.balanced_writes_append writes hbalanced)
  rw [run_append, SemanticQueryState.run_writes]
  exact hrun

/-- A transaction around balanced events. -/
theorem Balances.commit {queries queries' queries'' : SemanticQueryState}
    (h : Balances queries.savepoint queries') (hcommit : queries'.commit = some queries'') :
    Balances queries queries'' := by
  obtain ⟨events, hbalanced, hrun⟩ := h.events
  apply balances_of_events (.commit hbalanced .nil)
  rw [run_cons]
  show run SemanticQueryState.step (events ++ [.commit]) queries.savepoint = some queries''
  rw [run_append, hrun, Option.bind_some, run_singleton]
  exact hcommit

theorem Writes.balances {state state' : InferenceState} (h : Writes state state') :
    Balances state.queries state'.queries := by
  obtain ⟨writes, hwrites⟩ := h
  rw [hwrites]
  exact Balances.writeAll (balances_refl _)

/-- In a transaction that only writes, the rollback is exact. -/
theorem rolledBack_eq {A : Type} {state state' : InferenceState} (h : Writes state.savepoint state')
    (result : A) :
    ∃ final, rolledBack result state' = .ok (result, final) ∧ final.queries = state.queries ∧
      Balances state.queries final.queries := by
  obtain ⟨writes, hwrites⟩ := h
  have hspeculating := SemanticQueryState.speculating_writeAll
    (SemanticQueryState.speculating_savepoint state.queries) writes
  have hrollback : state'.queries.rollback = some state.queries := by
    rw [hwrites]
    exact hspeculating.rollback_eq
  refine ⟨{ state' with queries := state.queries }, ?_, rfl, balances_refl _⟩
  unfold rolledBack
  rw [hrollback]

/-- A commit finds its layer. -/
theorem committed_eq {A : Type} {state : InferenceState} {depth : Nat}
    (h : state.queries.WellLayered (depth + 1)) (result : A) :
    ∃ queries, committed result state = .ok (result, { state with queries }) ∧
      state.queries.commit = some queries ∧ queries.WellLayered depth := by
  obtain ⟨queries, hcommit, hlayered, -⟩ := h.commit
  refine ⟨queries, ?_, hcommit, hlayered⟩
  unfold committed
  rw [hcommit]

theorem Writes.wellLayered {state state' : InferenceState} {depth : Nat} (h : Writes state state')
    (hlayered : state.queries.WellLayered depth) : state'.queries.WellLayered depth := by
  obtain ⟨writes, hwrites⟩ := h
  rw [hwrites]
  exact hlayered.writeAll writes

variable (structuralHash) (ops)

/-- On enough fuel the call has one ending: it returns what satisfies `P`, or it is in a
    substitution that returns on no fuel. -/
def Ends {A : Type} (call : Nat → Except Stop (A × InferenceState))
    (P : A → InferenceState → Nat → Prop) : Prop :=
  ∃ bound, (∃ stop, Stuck structuralHash stop ∧ ∀ fuel ≥ bound, call fuel = .error stop) ∨
    ∃ result final, ∀ fuel ≥ bound, call fuel = .ok (result, final) ∧ P result final fuel

/-- The transactions balance; nothing is left of the attempt, or it was taken whole. -/
def OptionalAndAtomic (request : ReturnContextInferenceRequest) (state : InferenceState)
    (result : FixedSignatureParams) (final : InferenceState) (fuel : Nat) : Prop :=
  Balances state.queries final.queries ∧
    ((result = request.baseline ∧ final.queries = state.queries) ∨
      ∃ contextual, Accepted structuralHash fuel ops request state result final contextual)

/-- The transactions balance, and exhaustion leaves no trace. -/
def RestoresExhausted (request : SignatureInferenceRequest) (state : InferenceState)
    (outcome : Except Exhaustion (SignatureInferenceResult Exhaustion)) (final : InferenceState) :
    Prop :=
  Balances state.queries final.queries ∧
    (((∃ exhaustion, outcome = .error exhaustion) ∨
        (ops.collectCallSiteCandidatesQuery.run
          ⟨(request.typeParams.map GenericTypeParam.id).toFinset, request.params, request.args,
            request.freshArgs, request.receiver⟩ state.savepoint).1.exhaustion.isSome) →
      final.queries = state.queries)

variable {structuralHash} {ops}

/-- **Return-context inference**, in any number of open transactions. -/
theorem applyReturnContextCandidates_spec (request : ReturnContextInferenceRequest)
    {state : InferenceState} {depth : Nat} (hlayered : state.queries.WellLayered depth) :
    Ends structuralHash
      (fun fuel => applyReturnContextCandidates structuralHash fuel ops request state)
      (fun result final fuel => OptionalAndAtomic structuralHash ops request state result final fuel ∧
        final.queries.WellLayered depth) := by
  unfold applyReturnContextCandidates
  by_cases hnothing : request.activeParams \ request.ordinaryBound = ∅
  · simp only [if_pos hnothing]
    exact ⟨0, Or.inr ⟨_, _, fun _ _ => ⟨rfl, ⟨balances_refl _, Or.inl ⟨rfl, rfl⟩⟩, hlayered⟩⟩⟩
  · simp only [if_neg hnothing]
    obtain ⟨bound, ⟨stop, hstuck, hstop⟩ | ⟨outcome, ended, hwrites, houtcome⟩⟩ :=
      (@within_proposeReturnContext structuralHash _ ops request).ends state.savepoint
    · refine ⟨bound, Or.inl ⟨stop, hstuck, fun fuel hfuel => ?_⟩⟩
      simp only [hstop fuel hfuel]
    · refine ⟨bound, Or.inr ?_⟩
      cases outcome with
      | error failure =>
        obtain ⟨final, hfinal, hsame, hbalances⟩ := rolledBack_eq hwrites request.baseline
        refine ⟨_, final, fun fuel hfuel => ⟨?_, ⟨hbalances, Or.inl ⟨rfl, hsame⟩⟩, ?_⟩⟩
        · simp only [houtcome fuel hfuel]
          exact hfinal
        · rw [hsame]
          exact hlayered
      | ok proposal =>
        have hopen : ended.queries.WellLayered (depth + 1) := hwrites.wellLayered hlayered.savepoint
        obtain ⟨queries, hcommitted, hcommit, hclosed⟩ := committed_eq hopen
          (⟨proposal, request.baseline.constraintViolations⟩ : FixedSignatureParams)
        refine ⟨_, _, fun fuel hfuel => ⟨?_, ⟨Balances.commit hwrites.balances hcommit,
          Or.inr (accepted_of_propose (houtcome fuel hfuel) hcommit)⟩, hclosed⟩⟩
        simp only [houtcome fuel hfuel]
        exact hcommitted

/-- **A signature inference**: exhaustion of the fixing or of the collection rolls everything
    back. -/
theorem inferSignatureTypeArguments_spec (request : SignatureInferenceRequest)
    (returnContext : Option (TypeId × TypeId)) (state : InferenceState) :
    Ends structuralHash (fun fuel =>
        inferSignatureTypeArguments structuralHash fuel ops request returnContext state)
      (fun outcome final _ => RestoresExhausted ops request state outcome final) := by
  unfold inferSignatureTypeArguments RestoresExhausted
  dsimp only
  generalize hcollected : ops.collectCallSiteCandidatesQuery.run
    ⟨(request.typeParams.map GenericTypeParam.id).toFinset, request.params, request.args,
      request.freshArgs, request.receiver⟩ state.savepoint = collected
  have hcollect : Writes state.savepoint collected.2 := by
    rw [← hcollected]
    exact ops.collectCallSiteCandidatesQuery.writes _ _
  obtain ⟨bound, ⟨stop, hstuck, hstop⟩ | ⟨fixed, ended, hfix, hfixed⟩⟩ :=
    (@onlyWrites_fixOrdinary structuralHash _ ops request collected.1.candidates).ends collected.2
  · refine ⟨bound, Or.inl ⟨stop, hstuck, fun fuel hfuel => ?_⟩⟩
    simp only [hstop fuel hfuel]
  · have hwrites := hcollect.trans hfix
    cases fixed with
    | error exhaustion =>
      -- fixing is exhausted
      obtain ⟨final, hfinal, hsame, hbalances⟩ := rolledBack_eq hwrites
        (.error exhaustion : Except Exhaustion (SignatureInferenceResult Exhaustion))
      refine ⟨bound, Or.inr ⟨.error exhaustion, final,
        fun fuel hfuel => ⟨?_, hbalances, fun _ => hsame⟩⟩⟩
      simp only [hfixed fuel hfuel]
      exact hfinal
    | ok fixed =>
      have hopen : ended.queries.WellLayered 1 :=
        hwrites.wellLayered (SemanticQueryState.wellLayered_zero state.queries).savepoint
      cases hexhaustion : collected.1.exhaustion with
      | some exhaustion =>
        -- the collection is exhausted
        obtain ⟨final, hfinal, hsame, hbalances⟩ := rolledBack_eq hwrites
          (.ok ⟨fixed.arguments, some exhaustion, fixed.constraintViolations⟩ :
            Except Exhaustion (SignatureInferenceResult Exhaustion))
        refine ⟨bound, Or.inr ⟨.ok ⟨fixed.arguments, some exhaustion, fixed.constraintViolations⟩,
          final, fun fuel hfuel => ⟨?_, hbalances, fun _ => hsame⟩⟩⟩
        simp only [hfixed fuel hfuel]
        exact hfinal
      | none =>
        cases returnContext with
        | none =>
          obtain ⟨queries, hcommitted, hcommit, -⟩ := committed_eq hopen
            (.ok ⟨fixed.arguments, none, fixed.constraintViolations⟩ :
              Except Exhaustion (SignatureInferenceResult Exhaustion))
          refine ⟨bound, Or.inr ⟨.ok ⟨fixed.arguments, none, fixed.constraintViolations⟩,
            { ended with queries }, fun fuel hfuel =>
              ⟨?_, Balances.commit hwrites.balances hcommit, ?_⟩⟩⟩
          · simp only [hfixed fuel hfuel]
            exact hcommitted
          · intro hexhausted
            simp at hexhausted
        | some context =>
          obtain ⟨source, target⟩ := context
          obtain ⟨bound', hends⟩ := @applyReturnContextCandidates_spec structuralHash _ ops
            { typeParams := request.typeParams
              activeParams := (request.typeParams.map GenericTypeParam.id).toFinset
              ordinaryBound := (collected.1.candidates.map Prod.fst).toFinset
              constraints := signatureConstraints request.typeParams
              baseline := fixed
              source := source
              target := target } _ _ hopen
          refine ⟨max bound bound', ?_⟩
          rcases hends with ⟨stop, hstuck, hstop⟩ | ⟨applied, state', happlied⟩
          · refine Or.inl ⟨stop, hstuck, fun fuel hfuel => ?_⟩
            simp only [hfixed fuel (max_le_iff.mp hfuel).1,
              hstop fuel (max_le_iff.mp hfuel).2]
          · obtain ⟨⟨hinner, -⟩, hopen'⟩ := (happlied bound' le_rfl).2
            obtain ⟨queries, hcommitted, hcommit, -⟩ := committed_eq hopen'
              (.ok ⟨applied.arguments, none, applied.constraintViolations⟩ :
                Except Exhaustion (SignatureInferenceResult Exhaustion))
            obtain ⟨writes, hqueries⟩ := hwrites
            rw [hqueries] at hinner
            refine Or.inr ⟨.ok ⟨applied.arguments, none, applied.constraintViolations⟩,
              { state' with queries }, fun fuel hfuel =>
                ⟨?_, Balances.commit hinner.writeAll hcommit, ?_⟩⟩
            · simp only [hfixed fuel (max_le_iff.mp hfuel).1,
                (happlied fuel (max_le_iff.mp hfuel).2).1]
              exact hcommitted
            · intro hexhausted
              simp at hexhausted

end Balance

/-- **Return-context inference is optional and atomic**, for every signature and whatever the
    operations answer. -/
theorem return_context_optional_and_atomic :
    (∀ (request : ReturnContextInferenceRequest) (state : InferenceState),
      Ends structuralHash
        (fun fuel => applyReturnContextCandidates structuralHash fuel ops request state)
        (OptionalAndAtomic structuralHash ops request state)) ∧
    ∀ (request : SignatureInferenceRequest) (returnContext : Option (TypeId × TypeId))
      (state : InferenceState),
      Ends structuralHash (fun fuel =>
          inferSignatureTypeArguments structuralHash fuel ops request returnContext state)
        (fun outcome final _ => RestoresExhausted ops request state outcome final) := by
  constructor
  · intro request state
    obtain ⟨bound, hends⟩ := applyReturnContextCandidates_spec request
      (SemanticQueryState.wellLayered_zero state.queries)
    refine ⟨bound, hends.imp_right ?_⟩
    intro ⟨result, final, hresult⟩
    exact ⟨result, final, fun fuel hfuel =>
      ⟨(hresult fuel hfuel).1, (hresult fuel hfuel).2.1⟩⟩
  · exact inferSignatureTypeArguments_spec

end Inference

/-! ### A call

`declare function f<T, U extends T>(x: T): U`, called on an `unknown` where a `string` is expected:
the argument binds `T` and leaves `unknown` to `U`, for which the return type offers `string`. -/

/-- An operation that answers from its input alone and records one write. -/
def recording {A B : Type} (answer : A → B) (write : A → SemanticWrite) : QueryOperation A B where
  run input state := (answer input, { state with queries := state.queries.write (write input) })
  writes input _ := ⟨[write input], rfl⟩

def callOperations : InferenceOperations Unit where
  collectCallSiteCandidatesQuery := recording (fun asked => ⟨asked.args.map (fun arg =>
    (0, [⟨arg, false⟩])), none⟩) (fun asked => .markPublicationClean asked.args)
  collectReturnContextCandidatesQuery := recording (fun asked => ⟨[(1, [⟨asked.2.2, false⟩])], none⟩)
    (fun asked => .markPublicationClean [asked.2.1])
  fixCallSiteCandidatesForParam := recording
    (fun asked => .ok (asked.2.head?.map CallSiteCandidate.ty)) (fun _ => .markPublicationClean [])
  demand := recording .ok (fun ty => .markPublicationClean [ty])
  isAssignable := recording (fun asked => if asked.2 = 2 then .yes else .no)
    (fun asked => .rememberRelation ⟨asked.1, asked.2, .assignable⟩ .yes)
  containsDeferredKeyof := recording (fun _ => false) (fun ty => .markPublicationClean [ty])

def callState : InferenceState :=
  { interner := (((Interner.withIntrinsics (fun _ => 0)).internTypeParam (fun _ => 0) 0
      "T").2.internTypeParam (fun _ => 0) 1 "U").2
    nextTypeParam := 2
    queries := SemanticQueryState.default }

/-- The arguments `unknown` and `ty`. -/
def callArguments (ty : TypeId) : FxHashMap TypeParamId TypeId :=
  ((∅ : FxHashMap TypeParamId TypeId).insert 0 2).insert 1 ty

def callRequest : ReturnContextInferenceRequest :=
  { typeParams := [⟨0, none, none⟩, ⟨1, some 19, none⟩]
    activeParams := {0, 1}
    ordinaryBound := {0}
    constraints := signatureConstraints [⟨0, none, none⟩, ⟨1, some 19, none⟩]
    baseline := ⟨callArguments 2, ∅⟩
    source := 20
    target := 9 }

/-- The return type decides `U`. -/
theorem return_context_optional_and_atomic_string : ∃ bound final, ∀ fuel ≥ bound,
    applyReturnContextCandidates (fun _ => 0) fuel callOperations callRequest callState =
      .ok (⟨callArguments 9, ∅⟩, final) ∧
    ∃ contextual, Accepted (fun _ => 0) fuel callOperations callRequest callState
      ⟨callArguments 9, ∅⟩ final contextual := by
  have hthree : ((proposeReturnContext (fun _ => 0) 3 callOperations callRequest).run
      callState.savepoint).toOption.bind (fun out => out.1.toOption) = some (callArguments 9) := by
    decide +kernel
  cases hrun : (proposeReturnContext (fun _ => 0) 3 callOperations callRequest).run
      callState.savepoint with
  | error stop =>
    rw [hrun] at hthree
    cases hthree
  | ok out =>
    obtain ⟨outcome, ended⟩ := out
    rw [hrun] at hthree
    cases outcome with
    | error failure => cases hthree
    | ok proposal =>
      obtain rfl : proposal = callArguments 9 := Option.some.inj hthree
      have hcall : ∀ fuel ≥ 3, applyReturnContextCandidates (fun _ => 0) fuel callOperations
          callRequest callState = committed ⟨callArguments 9, ∅⟩ ended := by
        intro fuel hfuel
        unfold applyReturnContextCandidates
        rw [if_neg (by decide), within_proposeReturnContext.keeps hfuel hrun]
        rfl
      obtain ⟨bound, hends⟩ :=
        (return_context_optional_and_atomic (fun _ => 0) callOperations).1 callRequest callState
      obtain ⟨queries, hclosed, -, -⟩ := committed_eq
        ((within_proposeReturnContext.moves hrun).wellLayered
          (SemanticQueryState.wellLayered_zero callState.queries).savepoint)
        (⟨callArguments 9, ∅⟩ : FixedSignatureParams)
      refine ⟨max 3 bound, { ended with queries }, fun fuel hfuel => ?_⟩
      have hreturns := (hcall fuel (max_le_iff.mp hfuel).1).trans hclosed
      refine ⟨hreturns, ?_⟩
      rcases hends with ⟨stop, _, hstop⟩ | ⟨result, final, hresult⟩
      · cases (hstop fuel (max_le_iff.mp hfuel).2).symm.trans hreturns
      · obtain ⟨hreturns', -, hatomic⟩ := hresult fuel (max_le_iff.mp hfuel).2
        cases hreturns.symm.trans hreturns'
        apply hatomic.resolve_left
        intro hbaseline
        exact absurd (congrArg (fun fixed => fixed.arguments.lookup 1) hbaseline.1) (by decide)

end Typokat.Check.ReturnContext
