import Typokat.Relate.EnvironmentRuns
import Typokat.Types.Intern

/-!
# The Environment as an Identity

Two stacks with one flat environment are decided alike when both are empty or neither is, and the
one-way alignments of different parameters are the same.  Nothing less is enough: below a pair of
generic functions an alignment is visible in one direction only, and a cached verdict is read under
the empty stack only.

## Main Definitions

- `SameDecisions` : two stacks are decided alike

## Main Results

- `sameDecisions_iff` : **when two stacks with one environment are decided alike**
- `hiddenStack_decisions` : one environment, two decisions
-/

namespace Typokat.Relate

open Types Lib Interner

/-! ## §1 Fresh pairs -/

section Apart

variable (text : NumberText) (store : Store) (wk : WellKnown) (kind : RelationKind)
variable {recurse : TypeId → TypeId → Bool → Relater → Related}

/-- The identity of the environment leaves the rest of the engine alone. -/
theorem binderEnvironmentId_eq (relater : Relater) : ∃ environment environments active,
    relater.binderEnvironmentId = (environment, { relater with
      binderEnvironments := environments, activeBinderEnvironment := active }) := by
  unfold Relater.binderEnvironmentId
  split
  · rename_i environment hactive
    exact ⟨environment, relater.binderEnvironments, relater.activeBinderEnvironment, rfl⟩
  · split
    · exact ⟨0, _, some 0, rfl⟩
    · dsimp only
      split
      · exact ⟨0, _, some 0, rfl⟩
      · split
        · exact ⟨_, _, _, rfl⟩
        · exact ⟨_, _, _, rfl⟩

/-- Nothing is known about the pair. -/
structure Fresh (src tgt : TypeId) (relater : Relater) : Prop where
  stack : ∀ environment, ⟨⟨src, tgt, kind⟩, environment⟩ ∉ relater.stack
  completed : relater.completedContextualYes = ∅
  cache : relater.cache = .new

/-- The pair is in flight under the same contexts. -/
structure Entered (src tgt : TypeId) (relater started : Relater) : Prop where
  contexts : started.binderContexts = relater.binderContexts
  completed : started.completedContextualYes = ∅
  cache : started.cache = .new
  stack : ∃ environment, started.stack = insert ⟨⟨src, tgt, kind⟩, environment⟩ relater.stack

/-- A pair about which nothing is known is decided by its rule. -/
theorem relateInFlight_result {src tgt : TypeId} {relater : Relater} (wantReason : Bool)
    (hfresh : Fresh kind src tgt relater) :
    ∃ started, Entered kind src tgt relater started ∧
      (relateInFlight text store wk kind recurse src tgt wantReason relater).map (fun ended =>
          ended.1) =
        (runRule recurse (relateUncached text store wk relater.binderContexts src tgt) ∅
          started).map (fun ended => ended.1) := by
  obtain ⟨environment, environments, active, heq⟩ := binderEnvironmentId_eq relater
  refine ⟨{ relater with
    binderEnvironments := environments, activeBinderEnvironment := active,
    stack := insert ⟨⟨src, tgt, kind⟩, environment⟩ relater.stack, wantReason := wantReason },
    ⟨rfl, hfresh.completed, hfresh.cache, ⟨environment, rfl⟩⟩, ?_⟩
  have hcached : (if relater.binderContexts.isEmpty = true
      then relater.cache.get ⟨src, tgt, kind⟩ else none) = none := by
    rw [hfresh.cache]
    split
    · rfl
    · rfl
  unfold relateInFlight
  rw [heq]
  dsimp only
  rw [if_neg (hfresh.stack environment), hfresh.completed, if_neg (by simp), hcached, if_neg (by simp),
    if_neg (by simp)]
  unfold runFrame
  rw [Option.map_map]
  -- without a cached verdict the result is not clamped
  congr 1

/-- A type that is not a parameter is left to the rules. -/
theorem relateContextualTypeParams_of_none {src tgt : TypeId} (hsrc : store.typeParam src = none)
    (htgt : store.typeParam tgt = none) (relater : Relater) :
    relateContextualTypeParams store recurse src tgt relater = some (none, ∅, relater) := by
  have haligned : alignedByContext store relater.binderContexts src tgt = false := by
    unfold alignedByContext
    rw [hsrc]
  have hbinding : contextualBinding store relater.binderContexts src tgt = none := by
    unfold contextualBinding
    rw [hsrc, htgt]
    rfl
  unfold relateContextualTypeParams
  rw [haligned, if_neg Bool.false_ne_true, hbinding]

/-- Nothing is forgotten at the start of a query that has completed nothing. -/
theorem completed_reset {relater : Relater} (hcompleted : relater.completedContextualYes = ∅) :
    (if relater.stack = ∅ then { relater with completedContextualYes := ∅ } else relater) =
      relater := by
  split
  · rw [← hcompleted]
  · rfl

/-- What a fresh pair comes to. -/
theorem relate_result {fuel : Nat} {src tgt : TypeId} {relater : Relater} (wantReason : Bool)
    (hne : src ≠ tgt) (hsrc : store.typeParam src = none) (htgt : store.typeParam tgt = none)
    (hfresh : Fresh kind src tgt relater) :
    ∃ started, Entered kind src tgt relater started ∧
      (relate text store wk kind (fuel + 1) src tgt wantReason relater).map (fun ended =>
          ended.1) =
        if contextualDeferredIndexedAccessesAreIdentical store relater.binderContexts src tgt then
          some .yes
        else
          (runRule (relate text store wk kind fuel)
            (relateUncached text store wk relater.binderContexts src tgt) ∅ started).map
            (fun ended => ended.1) := by
  obtain ⟨started, hentered, hresult⟩ :=
    @relateInFlight_result text store wk kind (relate text store wk kind fuel) src tgt relater
      wantReason hfresh
  refine ⟨started, hentered, ?_⟩
  unfold relate
  rw [completed_reset hfresh.completed, if_neg hne]
  split
  · rfl
  · rw [relateContextualTypeParams_of_none store hsrc htgt, Option.bind_some]
    rw [Option.map_map]
    exact hresult

theorem relate_self {fuel : Nat} (ty : TypeId) (wantReason : Bool) {relater : Relater}
    (hcompleted : relater.completedContextualYes = ∅) :
    relate text store wk kind (fuel + 1) ty ty wantReason relater = some (.yes, ∅, relater) := by
  unfold relate
  rw [completed_reset hcompleted, if_pos rfl]

/-! ## §2 Two stacks apart -/

/-- Two generic functions.  The source returns `string[S]` and the target `string[T]`, for two
    parameters that they do not bind themselves unless `binder` or `binder'` is one of them. -/
def scopedStore (binder binder' src tgt : TypeParamId) : Store :=
  let store := (Interner.withIntrinsics (fun _ => 0)).store
  let store := (store.pushEntry .typeParams ⟨src, "S"⟩ .empty).2
  let store := (store.pushEntry .typeParams ⟨tgt, "T"⟩ .empty).2
  let store := (store.pushDeferredIndexedAccess ⟨9, 19⟩ .empty).2
  let store := (store.pushDeferredIndexedAccess ⟨9, 20⟩ .empty).2
  let store := (store.pushFunction { typeParams := [{ id := binder }], ret := 21 } .empty).2
  (store.pushFunction { typeParams := [{ id := binder' }], ret := 22 } .empty).2

/-- The context of the two functions. -/
def scopedContext (binder binder' : TypeParamId) : BinderRelationContext :=
  .aligned [{ id := binder }] [{ id := binder' }]

/-- An engine that has decided nothing yet, under a stack. -/
def startUnder (contexts : List BinderRelationContext) : Relater :=
  { binderContexts := contexts, activeBinderEnvironment := none }

/-- The source function is assignable to the target function exactly when the two parameters are
    aligned below the context of the functions. -/
theorem relate_scoped (binder binder' src tgt : TypeParamId) (contexts : List BinderRelationContext) :
    (relate text (scopedStore binder binder' src tgt)
        (withIntrinsics (fun _ => 0)).wellKnown kind 2 23 24 true
        (startUnder contexts)).map (fun ended => ended.1.isYes) =
      some (contextualParamIdsAreAligned (scopedContext binder binder' :: contexts) src tgt) := by
  obtain ⟨started, ⟨hcontexts, hcompleted, hcache, environment, hpushed⟩, hresult⟩ :=
    @relate_result text (scopedStore binder binder' src tgt)
      (withIntrinsics (fun _ => 0)).wellKnown kind 1 23 24 (startUnder contexts) true
      (by decide) rfl rfl ⟨fun _ => Finset.notMem_empty _, rfl, rfl⟩
  have hdeferred : contextualDeferredIndexedAccessesAreIdentical
      (scopedStore binder binder' src tgt) contexts 23 24 = false := rfl
  have hrule : relateUncached text (scopedStore binder binder' src tgt)
      (withIntrinsics (fun _ => 0)).wellKnown contexts 23 24 =
      withBinderContext (scopedContext binder binder')
        ((Rule.probe 2 2).andThen (fun _ => .leaf 23 24)
          ((Rule.relate 21 22).andThen (fun child => .of (.returnType 23 24 child.head))
            Rule.yes)) := rfl
  -- below the context of the functions the two returns are related
  obtain ⟨_, _, hreturns⟩ :=
    @relate_result text (scopedStore binder binder' src tgt)
      (withIntrinsics (fun _ => 0)).wellKnown kind 0 21 22
      (started.enter (scopedContext binder binder')) started.wantReason (by decide) rfl rfl
      ⟨by
        intro environment'
        show _ ∉ started.stack
        rw [hpushed, Finset.mem_insert]
        rintro (heq | hempty)
        · cases heq
        · exact absurd hempty (Finset.notMem_empty _),
      hcompleted, hcache⟩
  have hleaf : relateUncached text (scopedStore binder binder' src tgt)
      (withIntrinsics (fun _ => 0)).wellKnown
      (started.enter (scopedContext binder binder')).binderContexts 21 22 = Rule.leaf 21 22 := rfl
  have haligned : contextualDeferredIndexedAccessesAreIdentical
      (scopedStore binder binder' src tgt)
      (started.enter (scopedContext binder binder')).binderContexts 21 22 =
        contextualParamIdsAreAligned (scopedContext binder binder' :: contexts) src tgt := by
    show contextualDeferredIndexedAccessesAreIdentical (scopedStore binder binder' src tgt)
      (scopedContext binder binder' :: started.binderContexts) 21 22 = _
    rw [hcontexts]
    rfl
  rw [haligned, hleaf] at hreturns
  have hverdict : ∀ x : Related, x.map (fun ended => ended.1.isYes) =
      (x.map (fun ended => ended.1)).map Relation.isYes := by
    intro x
    rw [Option.map_map]
    rfl
  rw [hverdict, hresult]
  show (if contextualDeferredIndexedAccessesAreIdentical (scopedStore binder binder' src tgt)
    contexts 23 24 = true then _ else (runRule _ (relateUncached text _ _ contexts 23 24) ∅
      started).map _).map _ = _
  rw [hdeferred, if_neg Bool.false_ne_true, hrule]
  have hself := @relate_self text (scopedStore binder binder' src tgt)
    (withIntrinsics (fun _ => 0)).wellKnown kind 0 2 false
    (started.enter (scopedContext binder binder')) hcompleted
  unfold withBinderContext
  rw [runRule]
  have hprobe : runRule (relate text (scopedStore binder binder' src tgt)
        (withIntrinsics (fun _ => 0)).wellKnown kind 1)
      ((Rule.probe 2 2).andThen (fun _ => .leaf 23 24)
        ((Rule.relate 21 22).andThen (fun child => .of (.returnType 23 24 child.head)) Rule.yes))
      ∅ (started.enter (scopedContext binder binder')) =
      (relate text (scopedStore binder binder' src tgt)
        (withIntrinsics (fun _ => 0)).wellKnown kind 1 21 22 started.wantReason
        (started.enter (scopedContext binder binder'))).bind (fun ended =>
          runRule (relate text (scopedStore binder binder' src tgt)
            (withIntrinsics (fun _ => 0)).wellKnown kind 1)
            (Rule.andThen (.done ended.1) (fun child => .of (.returnType 23 24 child.head))
              Rule.yes)
            (∅ ∪ ∅ ∪ ended.2.1) ended.2.2) := by
    show (relate text _ _ kind 1 2 2 false _).bind _ = _
    rw [hself]
    rfl
  rw [hprobe]
  revert hreturns
  cases relate text (scopedStore binder binder' src tgt)
    (withIntrinsics (fun _ => 0)).wellKnown kind 1 21 22 started.wantReason
    (started.enter (scopedContext binder binder')) with
  | none =>
    intro hreturns
    split at hreturns
    · cases hreturns
    · cases hreturns
  | some ended =>
    obtain ⟨result, assumed, relater⟩ := ended
    intro hreturns
    split at hreturns
    · rename_i h
      cases hreturns
      rw [h]
      rfl
    · rename_i h
      cases hreturns
      rw [Bool.not_eq_true] at h
      rw [h]
      rfl

@[simp] theorem lookup_scopedContext (binder binder' param : TypeParamId) :
    (scopedContext binder binder').sourceToTarget.lookup param =
        (if param = binder then some binder' else none) ∧
      (scopedContext binder binder').targetToSource.lookup param =
        (if param = binder' then some binder else none) := by
  have hinsert : ∀ key value : TypeParamId,
      ((∅ : FxHashMap TypeParamId TypeParamId).insert key value).lookup param =
        if param = key then some value else none := by
    intro key value
    split_ifs with heq
    · rw [heq, Finmap.lookup_insert]
    · rw [Finmap.lookup_insert_of_ne _ heq, Finmap.lookup_empty]
  exact ⟨hinsert binder binder', hinsert binder' binder⟩

@[simp] theorem mem_scopedContext (binder binder' param : TypeParamId) :
    (param ∈ (scopedContext binder binder').sourceParameters ↔ param = binder) ∧
      (param ∈ (scopedContext binder binder').targetParameters ↔ param = binder') :=
  ⟨Finset.mem_singleton, Finset.mem_singleton⟩

/-- What the context of the two functions leaves visible: a source that it binds on one side is
    seen in the other direction alone. -/
theorem aligned_below_scopedContext {src tgt fresh : TypeParamId} (hne : src ≠ tgt)
    (hsrc : src ≠ fresh) (htgt : tgt ≠ fresh) (reverse : Bool)
    (contexts : List BinderRelationContext) :
    contextualParamIdsAreAligned
        (scopedContext (if reverse then src else fresh)
          (if reverse then fresh else src) :: contexts) src tgt =
      oneWayAligned contexts reverse src tgt := by
  unfold contextualParamIdsAreAligned oneWayAligned
  rw [paramIdsAligned]
  cases reverse with
  | true => simp [hsrc, htgt, hne.symm, htgt.symm]
  | false => simp [hsrc, htgt, hne.symm, htgt.symm]

/-- A cached verdict is read under the empty stack. -/
theorem relate_cached :
    (relate text (withIntrinsics (fun _ => 0)).store
        (withIntrinsics (fun _ => 0)).wellKnown .assignable 1 8 9 true
        { cache := RelationCache.new.insert ⟨8, 9, .assignable⟩ true }).map
          (fun ended => ended.1.isYes) = some true := rfl

/-- It is not read below a context. -/
theorem relate_cached_below (context : BinderRelationContext)
    (contexts : List BinderRelationContext) :
    (relate text (withIntrinsics (fun _ => 0)).store
        (withIntrinsics (fun _ => 0)).wellKnown .assignable 1 8 9 true
        { cache := RelationCache.new.insert ⟨8, 9, .assignable⟩ true
          binderContexts := context :: contexts }).map (fun ended => ended.1.isYes) =
      some false := rfl

end Apart

/-! ## §3 Decisions -/

/-- The readers of the stack decide alike under both stacks, and so does the engine, with the same
    cycle stack, caches and environments. -/
def SameDecisions (contexts contexts' : List BinderRelationContext) : Prop :=
  ∀ (text : NumberText) (store : Store) (wk : WellKnown) (kind : RelationKind) (fuel : Nat)
    (src tgt : TypeId) (wantReason : Bool) (relater : Relater),
    contextualTypeParamConstraint store contexts src =
      contextualTypeParamConstraint store contexts' src ∧
    contextualDeferredIndexedAccessesAreIdentical store contexts src tgt =
      contextualDeferredIndexedAccessesAreIdentical store contexts' src tgt ∧
    (relateContextualTypeParams store (relate text store wk kind fuel) src tgt
        { relater with binderContexts := contexts }).map
        (fun ended => ended.1.map Relation.isYes) =
      (relateContextualTypeParams store (relate text store wk kind fuel) src tgt
        { relater with binderContexts := contexts' }).map
        (fun ended => ended.1.map Relation.isYes) ∧
    (relate text store wk kind fuel src tgt wantReason
        { relater with binderContexts := contexts }).map (fun ended => ended.1.isYes) =
      (relate text store wk kind fuel src tgt wantReason
        { relater with binderContexts := contexts' }).map (fun ended => ended.1.isYes)

variable {contexts contexts' : List BinderRelationContext}

/-- Stacks with the same readings are decided alike. -/
theorem SameReadings.sameDecisions (h : SameReadings contexts contexts') :
    SameDecisions contexts contexts' := by
  intro text store wk kind fuel src tgt wantReason relater
  have htwins : Twins 0 { relater with binderContexts := contexts }
      { relater with binderContexts := contexts' } := ⟨contexts', rfl, [], _, _, rfl, rfl, rfl, h⟩
  refine ⟨h.typeParamConstraint store src, h.deferredIndexedAccesses store src tgt, ?_, ?_⟩
  · have hagree := relateContextualTypeParams_agree store (relate_agree store text wk kind fuel)
      src tgt htwins
    have hresult := congrArg (Option.map (Option.map Relation.isYes)) hagree.result_eq
    rw [Option.map_map, Option.map_map] at hresult
    exact hresult
  · have hagree := relate_agree store text wk kind fuel 0 src tgt wantReason _ _ htwins
    have hresult := congrArg (Option.map Relation.isYes) hagree.result_eq
    rw [Option.map_map, Option.map_map] at hresult
    exact hresult

/-- A number format that is never asked. -/
def noText : NumberText := ⟨fun _ => "", fun _ => "", fun _ => none⟩

/-- **When two stacks with one environment are decided alike.** -/
theorem sameDecisions_iff
    (henvironment : stackBinderEnvironment contexts = stackBinderEnvironment contexts') :
    SameDecisions contexts contexts' ↔
      contexts.isEmpty = contexts'.isEmpty ∧
        ∀ reverse src tgt, src ≠ tgt →
          oneWayAligned contexts reverse src tgt = oneWayAligned contexts' reverse src tgt := by
  constructor
  · intro h
    constructor
    · -- a wrong verdict in the cache tells an empty stack from another one
      have hcached := (h noText (withIntrinsics (fun _ => 0)).store
        (withIntrinsics (fun _ => 0)).wellKnown .assignable 1 8 9 true
        { cache := RelationCache.new.insert ⟨8, 9, .assignable⟩ true }).2.2.2
      cases contexts with
      | nil =>
        cases contexts' with
        | nil => rfl
        | cons context outer =>
          have habsurd := (relate_cached noText).symm.trans
            (hcached.trans (relate_cached_below noText context outer))
          cases habsurd
      | cons context outer =>
        cases contexts' with
        | nil =>
          have habsurd := (relate_cached_below noText context outer).symm.trans
            (hcached.trans (relate_cached noText))
          cases habsurd
        | cons context' outer' => rfl
    · intro reverse src tgt hne
      have hscoped := (h noText (scopedStore (if reverse then src else src + tgt + 1)
        (if reverse then src + tgt + 1 else src) src tgt)
        (withIntrinsics (fun _ => 0)).wellKnown .assignable 2 23 24 true
        { activeBinderEnvironment := none }).2.2.2
      have hfirst := relate_scoped noText .assignable (if reverse then src else src + tgt + 1)
        (if reverse then src + tgt + 1 else src) src tgt contexts
      have hsecond := relate_scoped noText .assignable (if reverse then src else src + tgt + 1)
        (if reverse then src + tgt + 1 else src) src tgt contexts'
      have hverdict := hfirst.symm.trans (hscoped.trans hsecond)
      have hsrc : src ≠ src + tgt + 1 :=
        Nat.ne_of_lt (Nat.lt_succ_of_le (Nat.le_add_right src tgt))
      have htgt : tgt ≠ src + tgt + 1 :=
        Nat.ne_of_lt (Nat.lt_succ_of_le (Nat.le_add_left tgt src))
      rw [Option.some.injEq, aligned_below_scopedContext hne hsrc htgt,
        aligned_below_scopedContext hne hsrc htgt] at hverdict
      exact hverdict
  · intro h
    exact (sameReadings_of_environment henvironment h.1 h.2).sameDecisions

/-- Four contexts of pairs of generic signatures with one parameter each. -/
def hiddenStack : List BinderRelationContext :=
  [scopedContext 1 0, scopedContext 0 2, scopedContext 2 0, scopedContext 0 1]

/-- Read from the other end, the contexts have the same environment. -/
theorem environment_hiddenStack :
    stackBinderEnvironment hiddenStack = stackBinderEnvironment hiddenStack.reverse := by
  have hsourceToTarget : (collectEnvironment hiddenStack).sourceToTargetAlignments =
      (collectEnvironment hiddenStack.reverse).sourceToTargetAlignments := by decide +kernel
  have htargetToSource : (collectEnvironment hiddenStack).targetToSourceAlignments =
      (collectEnvironment hiddenStack.reverse).targetToSourceAlignments := by decide +kernel
  have hdeferred : (stackBinderEnvironment hiddenStack).deferredAlignments =
      (stackBinderEnvironment hiddenStack.reverse).deferredAlignments := by decide +kernel
  have hconstraints : (collectEnvironment hiddenStack).constraints =
      (collectEnvironment hiddenStack.reverse).constraints := by decide +kernel
  show StackBinderEnvironment.mk _ _ (stackBinderEnvironment hiddenStack).deferredAlignments _ _ =
    StackBinderEnvironment.mk _ _
      (stackBinderEnvironment hiddenStack.reverse).deferredAlignments _ _
  rw [hdeferred, hsourceToTarget, htargetToSource, hconstraints]
  rfl

/-- The two ends of the stack disagree about the entries of one direction. -/
theorem sameDecisions_iff_hidden : ¬ SameDecisions hiddenStack hiddenStack.reverse := by
  rw [sameDecisions_iff environment_hiddenStack]
  intro h
  have hvisible : oneWayAligned hiddenStack true 0 1 = true := by decide +kernel
  have hhidden : oneWayAligned hiddenStack.reverse true 0 1 = false := by decide +kernel
  have habsurd := h.2 true 0 1 (by decide)
  rw [hvisible, hhidden] at habsurd
  cases habsurd

/-- **One environment, two decisions.**  `<S>() => string[S]` is assignable to `<U>() => string[T]`
    under one of the stacks only. -/
theorem hiddenStack_decisions :
    stackBinderEnvironment hiddenStack = stackBinderEnvironment hiddenStack.reverse ∧
    (relate noText (scopedStore 0 3 0 1) (Interner.withIntrinsics (fun _ => 0)).wellKnown
      .assignable 2 23 24 true (startUnder hiddenStack)).map (fun ended => ended.1.isYes) =
        some true ∧
    (relate noText (scopedStore 0 3 0 1) (Interner.withIntrinsics (fun _ => 0)).wellKnown
      .assignable 2 23 24 true (startUnder hiddenStack.reverse)).map (fun ended => ended.1.isYes) =
        some false := by
  refine ⟨environment_hiddenStack, ?_, ?_⟩
  · rw [relate_scoped]
    decide +kernel
  · rw [relate_scoped]
    decide +kernel

end Typokat.Relate
