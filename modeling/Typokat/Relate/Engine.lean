import Typokat.Relate.Cache
import Typokat.Relate.Rules

/-!
# The Relation Engine (`typokat-relate/src/relate/relation/mod.rs`)

The engine around the rules: a durable cache of verdicts, a stack of the relations in flight that
are assumed to hold when they are met again, and the binder contexts of generic signatures.  A
verdict that rests on an assumption about a relation further up is provisional and not cached.

## Main Definitions

- `Relater` : the state of the engine
- `relate` : one relation
-/

namespace Typokat.Relate

open Types

/-! ## §1 State -/

/-- `StackRelationKey`: a relation in flight and the binder environment around it. -/
structure StackRelationKey where
  relation : RelationKey
  environment : Nat
  deriving DecidableEq

/-- `AssumedSet`. -/
abbrev AssumedSet := FxHashSet StackRelationKey

/-- `Relater`, as `Relater::new` makes it for a store; without normalization there are no pending
    writes, demands or exhaustion. -/
structure Relater where
  cache : RelationCache := .new
  stack : FxHashSet StackRelationKey := ∅
  completedContextualYes : FxHashSet StackRelationKey := ∅
  /-- `binder_contexts`, the innermost one first -/
  binderContexts : List BinderRelationContext := []
  binderEnvironments : FxHashMap StackBinderEnvironment Nat := ∅
  activeBinderEnvironment : Option Nat := some 0
  sourceSpecializationEpoch : Nat := 0
  wantReason : Bool := true

namespace Relater

/-- `binder_environment_id`; the empty environment is 0. -/
def binderEnvironmentId (relater : Relater) : Nat × Relater :=
  match relater.activeBinderEnvironment with
  | some environment => (environment, relater)
  | none =>
    if relater.binderContexts.isEmpty then (0, { relater with activeBinderEnvironment := some 0 })
    else
      let environment := stackBinderEnvironment relater.binderContexts
      if environment.isEmpty then (0, { relater with activeBinderEnvironment := some 0 })
      else
        match relater.binderEnvironments.lookup environment with
        | some id => (id, { relater with activeBinderEnvironment := some id })
        | none =>
          let id := relater.binderEnvironments.keys.card + 1
          (id, { relater with
            binderEnvironments := relater.binderEnvironments.insert environment id
            activeBinderEnvironment := some id })

/-- `specialize_source_parameter`. -/
def specializeSourceParameter (relater : Relater) (contextIndex : Nat) (parameter : TypeParamId)
    (ty : TypeId) : Relater :=
  match relater.binderContexts[contextIndex]? with
  | none => relater
  | some context =>
    { relater with
      binderContexts := relater.binderContexts.set contextIndex
        { context with
          sourceInstantiations := context.sourceInstantiations.insert parameter ty }
      activeBinderEnvironment := none
      sourceSpecializationEpoch := relater.sourceSpecializationEpoch + 1 }

/-- Enter a binder context (`with_binder_context`). -/
def enter (relater : Relater) (context : BinderRelationContext) : Relater :=
  { relater with
    binderContexts := context :: relater.binderContexts, activeBinderEnvironment := none }

/-- Leave the innermost binder context. -/
def leave (relater : Relater) : Relater :=
  { relater with
    binderContexts := relater.binderContexts.tail, activeBinderEnvironment := none }

end Relater

/-- What a call returns: the relation, the assumptions that it adds, and the engine after it. -/
abbrev Related := Option (Relation × AssumedSet × Relater)

/-! ## §2 Running a rule -/

/-- Find the answers to the questions of a rule. -/
def runRule (recurse : TypeId → TypeId → Bool → Relater → Related) :
    Rule → AssumedSet → Relater → Related
  | .done result, assumed, relater => some (result, assumed, relater)
  | .stuck, _, _ => none
  | .ask question next, assumed, relater =>
    (recurse question.src question.tgt (if question.probe then false else relater.wantReason)
      relater).bind (fun (result, more, relater) =>
        runRule recurse (next result)
          (if question.isolated && !result.isYes then assumed else assumed ∪ more) relater)
  | .within context body next, assumed, relater =>
    (runRule recurse body assumed (relater.enter context)).bind (fun (result, assumed, relater) =>
      runRule recurse (next result) assumed relater.leave)

/-! ## §3 Type parameters in contexts -/

/-- The binding of `relate_contextual_type_params`: the index of the context, the parameter, the
    other type, and whether the parameter is the source. -/
def contextualBinding (store : Store) (contexts : List BinderRelationContext)
    (src tgt : TypeId) : Option (Nat × TypeParamId × TypeId × Bool) :=
  ((store.typeParam src).bind (fun param =>
    (specializingContext contexts param.id).map (fun index => (index, param.id, tgt, true)))).or
  ((store.typeParam tgt).bind (fun param =>
    (specializingContext contexts param.id).map (fun index => (index, param.id, src, false))))

/-- Whether two parameters are aligned by some context. -/
def alignedByContext (store : Store) (contexts : List BinderRelationContext)
    (src tgt : TypeId) : Bool :=
  match store.typeParam src, store.typeParam tgt with
  | some src, some tgt =>
    contexts.any (fun context => context.sourceToTarget.lookup src.id == some tgt.id
      || context.targetToSource.lookup src.id == some tgt.id)
  | _, _ => false

/-- `relate_contextual_type_params`; the inner `none` leaves the pair to the rules. -/
def relateContextualTypeParams (store : Store)
    (recurse : TypeId → TypeId → Bool → Relater → Related) (src tgt : TypeId)
    (relater : Relater) : Option (Option Relation × AssumedSet × Relater) :=
  if alignedByContext store relater.binderContexts src tgt then some (some .yes, ∅, relater)
  else
    match contextualBinding store relater.binderContexts src tgt with
    | none => some (none, ∅, relater)
    | some (index, param, other, sourceOnLeft) =>
      let context := relater.binderContexts[index]?
      match context.bind (fun context => context.sourceInstantiations.lookup param) with
      | some existing =>
        (if sourceOnLeft then recurse existing other relater.wantReason relater
          else recurse other existing relater.wantReason relater).map
          (fun (result, more, relater) => (some result, more, relater))
      | none =>
        let constraint := (context.bind (fun context => context.constraints.lookup param)).join
        let relater := relater.specializeSourceParameter index param other
        match constraint with
        | none => some (some .yes, ∅, relater)
        | some constraint =>
          (recurse other constraint false relater).map (fun (result, more, relater) =>
            (some (if result.isYes then .yes else .no (.leaf src tgt)), more, relater))

/-! ## §4 One relation -/

section Engine

variable (text : NumberText) (store : Store) (wk : WellKnown) (kind : RelationKind)

/-- The end of a frame: clamp a recomputed failure, discharge the own assumption, and keep the
    verdict where it is sound. -/
def closeFrame (src tgt : TypeId) (stackKey : StackRelationKey) (cached : Option Bool)
    (epoch : Nat) (result : Relation) (frameAssumed : AssumedSet) (relater : Relater) :
    Relation × AssumedSet × Relater :=
  let relater := { relater with stack := relater.stack.erase stackKey }
  -- a recomputed failure may have met its own assumption
  let result := if cached = some false ∧ result.isYes = true then .no (.leaf src tgt) else result
  let frameAssumed := frameAssumed.erase stackKey
  let provisional := decide (frameAssumed ≠ ∅)
  let relater :=
    if !relater.binderContexts.isEmpty && result.isYes && !provisional
        && relater.sourceSpecializationEpoch == epoch then
      { relater with completedContextualYes := insert stackKey relater.completedContextualYes }
    else relater
  let relater :=
    if relater.binderContexts.isEmpty && cached.isNone then
      if !result.isYes then { relater with cache := relater.cache.insert stackKey.relation false }
      else if !provisional then
        { relater with cache := relater.cache.insert stackKey.relation true }
      else relater
    else relater
  (result, frameAssumed, relater)

/-- A frame: the rules of the pair run under a push on the stack. -/
def runFrame (recurse : TypeId → TypeId → Bool → Relater → Related) (src tgt : TypeId)
    (wantReason : Bool) (stackKey : StackRelationKey) (cached : Option Bool)
    (relater : Relater) : Related :=
  let started := { relater with
    stack := insert stackKey relater.stack, wantReason := wantReason }
  (runRule recurse (relateUncached text store wk relater.binderContexts src tgt) ∅ started).map
    (fun (result, frameAssumed, ended) =>
      closeFrame src tgt stackKey cached relater.sourceSpecializationEpoch result frameAssumed
        { ended with wantReason := relater.wantReason })

/-- The part of `relate` behind the contextual type parameters. -/
def relateInFlight (recurse : TypeId → TypeId → Bool → Relater → Related) (src tgt : TypeId)
    (wantReason : Bool) (relater : Relater) : Related :=
  let key : RelationKey := ⟨src, tgt, kind⟩
  let (environment, relater) := relater.binderEnvironmentId
  let stackKey : StackRelationKey := ⟨key, environment⟩
  if stackKey ∈ relater.stack then some (.yes, {stackKey}, relater)
  else if !relater.binderContexts.isEmpty ∧ stackKey ∈ relater.completedContextualYes then
    some (.yes, ∅, relater)
  else
    let cached := if relater.binderContexts.isEmpty then relater.cache.get key else none
    if cached = some true then some (.yes, ∅, relater)
    else if cached = some false ∧ wantReason = false then some (.no (.leaf src tgt), ∅, relater)
    else runFrame text store wk recurse src tgt wantReason stackKey cached relater

/-- `relate`; `none` while the call has not returned after `fuel` nested calls. -/
def relate : Nat → TypeId → TypeId → Bool → Relater → Related
  | 0, _, _, _, _ => none
  | fuel + 1, src, tgt, wantReason, relater =>
    let recurse := relate fuel
    let relater :=
      if relater.stack = ∅ then { relater with completedContextualYes := ∅ } else relater
    if src = tgt then some (.yes, ∅, relater)
    else if contextualDeferredIndexedAccessesAreIdentical store relater.binderContexts src tgt then
      some (.yes, ∅, relater)
    else
      (relateContextualTypeParams store recurse src tgt
        { relater with wantReason := wantReason }).bind (fun (result, more, after) =>
          let after := { after with wantReason := relater.wantReason }
          match result with
          | some result => some (result, more, after)
          | none =>
            (relateInFlight text store wk kind recurse src tgt wantReason after).map
              (fun (result, frameMore, after) => (result, more ∪ frameMore, after)))

end Engine

end Typokat.Relate
