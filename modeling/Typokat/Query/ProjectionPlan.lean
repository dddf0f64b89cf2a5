import Typokat.Check.ClassGraph
import Typokat.Lib.Follow
import Typokat.Query.State

/-!
# Projection Plans (`typokat-check/src/check/query/mod.rs`)

What a query has found out so far: the overlays that relation consults before identity, cache
and cycle handling, and the frontier of the types it gave up on.  A plan is only read here;
the planner fills it.

The parts of a plan that no function below reads (whether arrays lack `then`) are left out.

## Main Definitions

- `ProjectionPlan` : overlays, resolved sets and frontier
- `ProjectionPlan.normalize`, `ProjectionPlan.relationDemand`, `ProjectionPlan.apparentSurface`
- `ProjectionPlan.Answered` : nothing more is asked about a type
- `ProjectionPlan.Coherent` : the overlays agree with the resolved sets

## Main Results

- `ProjectionPlan.Answered.normalize` : what is left to ask about an answered type
- `ProjectionPlan.Answered.grown` : an answered type stays answered
-/

namespace Typokat.Query

open Types Check Lib Finmap

/-! ## §1 Types, reasons and demands -/

/-- A semantic type plus optional non-semantic substitution provenance. -/
structure DerivedType where
  ty : TypeId
  derivation : Option Nat
  deriving DecidableEq, Repr

/-- `DerivedType::plain`. -/
def DerivedType.plain (ty : TypeId) : DerivedType := ⟨ty, none⟩

/-- `ClassApplicationArguments`; the declaration of a default is the class, the parameter and
    the index. -/
inductive ClassApplicationArguments
  | wrongArity (expectedMin expectedMax actual : Nat)
  | unavailableExplicitArgument (index : Nat)
  | unsupportedDefault (classId : ClassId) (parameter : TypeParamId) (index : Nat)
  | inferenceIncomplete (index : Nat)
  | targetPoisoned (classId : ClassId)
  deriving DecidableEq, Repr

/-- `Exhaustion`: the reasons of the published classes, and those of a query. -/
inductive Exhaustion
  | published (reason : Check.Exhaustion)
  | classApplicationArguments (arguments : ClassApplicationArguments)
  | classProjectionBudget
  | evaluationBudget
  | evaluationCycle (ty : TypeId)
  | evaluationInvalidNode (ty : TypeId)
  deriving DecidableEq, Repr

/-- `DemandOutcome` with the reasons of a query. -/
inductive PlannedOutcome (T : Type)
  | ready (value : T)
  | exhausted (reason : Exhaustion)
  deriving DecidableEq, Repr

/-- One semantic node that the read-only relation engine reached before it could decide the
    enclosing query. -/
inductive RelationDemand
  | classProjection (ty : TypeId)
  | evaluation (ty : TypeId)
  | derivedClassProjection (derived : DerivedType)
  | derivedEvaluation (derived : DerivedType)
  | apparentSurface (ty : TypeId)
  deriving DecidableEq, Repr

/-- The type that a demand is about. -/
def RelationDemand.ty : RelationDemand → TypeId
  | .classProjection ty => ty
  | .evaluation ty => ty
  | .derivedClassProjection derived => derived.ty
  | .derivedEvaluation derived => derived.ty
  | .apparentSurface ty => ty

/-- Query-local apparent member surface of a type whose native representation does not itself
    carry named properties. -/
inductive ApparentSurface
  | notApplicable
  | ready (surface : TypeId)
  | unavailable
  | needs (demand : RelationDemand)
  deriving DecidableEq, Repr

structure GenericNativeSurface where
  template : TypeId
  parameter : TypeParamId
  deriving DecidableEq, Repr

structure LibraryObjectRelationContext where
  object : TypeId
  array : GenericNativeSurface
  readonlyArray : GenericNativeSurface
  string : TypeId
  number : TypeId
  boolean : TypeId
  callableFunction : TypeId
  deriving DecidableEq, Repr

/-! ## §2 Native surfaces -/

inductive NativeStaticSurface
  | string | number | boolean | object | function
  deriving DecidableEq, Repr

inductive NativeSourceSurfaceClass
  | array (readonly : Bool) (native : TypeId)
  | static (surface : NativeStaticSurface)
  deriving DecidableEq, Repr

/-- `classify_native_source_surface_class`. -/
def classifyNativeSourceSurfaceClass (store : Store) (ty : TypeId) :
    Option NativeSourceSurfaceClass :=
  let readonly := (store.readonlyOperand ty).isSome
  let native := (store.readonlyOperand ty).getD ty
  if store.tag native = some .array ∨ store.tag native = some .tuple then
    some (.array readonly native)
  else if store.tag ty = some .template then
    some (.static .string)
  else
    match ((store.literalValue ty).map LiteralValue.baseKind).or (store.intrinsicKind ty) with
    | some .string => some (.static .string)
    | some .number => some (.static .number)
    | some .boolean => some (.static .boolean)
    | some .object => some (.static .object)
    | _ => if store.tag ty = some .function then some (.static .function) else none

/-! ## §3 Plans -/

/-- Immutable overlays consumed by relation before identity, cache and cycle logic. -/
structure ProjectionPlan where
  classProjectionOverlay : FxHashMap TypeId TypeId := ∅
  resolvedClassProjections : FxHashSet TypeId := ∅
  evaluationOverlay : FxHashMap TypeId TypeId := ∅
  derivedOverlay : FxHashMap DerivedType DerivedType := ∅
  resolvedEvaluations : FxHashSet TypeId := ∅
  frontier : FxHashMap TypeId Exhaustion := ∅
  durableEvaluationMemo : Option (FxHashMap TypeId TypeId) := none
  libraryObjectContext : Option LibraryObjectRelationContext := none
  apparentSurfaceOverlay : FxHashMap TypeId TypeId := ∅
  apparentSurfaceUnavailable : FxHashSet TypeId := ∅

namespace ProjectionPlan

/-- The durable answer for a type. -/
def durable (plan : ProjectionPlan) (ty : TypeId) : Option TypeId :=
  plan.durableEvaluationMemo.bind (fun memo => memo.lookup ty)

/-- The three overlays in the order that `normalize` reads them. -/
def next (plan : ProjectionPlan) (ty : TypeId) : Option TypeId :=
  ((plan.evaluationOverlay.lookup ty).or (plan.durable ty)).or
    (plan.classProjectionOverlay.lookup ty)

/-- The results that the overlays lead to. -/
def results (plan : ProjectionPlan) : FxHashSet TypeId :=
  (plan.evaluationOverlay.keys ∪ (plan.durableEvaluationMemo.elim ∅ Finmap.keys) ∪
    plan.classProjectionOverlay.keys).image (fun ty => (plan.next ty).getD ty)

/-- `ProjectionPlan::normalize`.  The loop only sees the type and results of the overlays. -/
def normalize (plan : ProjectionPlan) (ty : TypeId) : Except Exhaustion TypeId :=
  follow plan.frontier.lookup plan.next (insert ty plan.results).card ∅ ty

/-- One round of `normalize_derived`: the derived overlay first. -/
def nextDerived (plan : ProjectionPlan) (store : Store) (current : DerivedType) :
    Option DerivedType :=
  match plan.derivedOverlay.lookup current with
  | some next => some next
  | none =>
    let localEvaluation := plan.evaluationOverlay.lookup current.ty
    let durableEvaluation := plan.durable current.ty
    if localEvaluation.isNone ∧ durableEvaluation.isSome ∧
        (store.tag current.ty = some .declared ∨ store.tag current.ty = some .instantiation) then
      -- semantic memo entries carry no occurrence provenance, so the node stays visible
      none
    else
      match plan.next current.ty with
      | some next => if next ≠ current.ty then some (.plain next) else none
      | none => none

/-- The results that the overlays lead to, with their provenance. -/
def derivedResults (plan : ProjectionPlan) : FxHashSet DerivedType :=
  plan.derivedOverlay.keys.image
      (fun derived => (plan.derivedOverlay.lookup derived).getD derived) ∪
    plan.results.image .plain

/-- `ProjectionPlan::normalize_derived`. -/
def normalizeDerived (plan : ProjectionPlan) (store : Store) (derived : DerivedType) :
    Except Exhaustion DerivedType :=
  follow (fun current => plan.frontier.lookup current.ty) (plan.nextDerived store)
    (insert derived plan.derivedResults).card ∅ derived

/-- The demand for the surface of a type has been answered. -/
def surfaced (plan : ProjectionPlan) (ty : TypeId) : Bool :=
  ty ∈ plan.apparentSurfaceOverlay ∨ ty ∈ plan.apparentSurfaceUnavailable

/-- `ProjectionPlan::apparent_surface`. -/
def apparentSurface (plan : ProjectionPlan) (store : Store) (ty : TypeId) : ApparentSurface :=
  match plan.apparentSurfaceOverlay.lookup ty with
  | some surface => .ready surface
  | none =>
    if ty ∈ plan.apparentSurfaceUnavailable then .unavailable
    else
      match classifyNativeSourceSurfaceClass store ty with
      | none => .notApplicable
      | some surfaceClass =>
        match plan.libraryObjectContext with
        | none => .unavailable
        | some context =>
          match surfaceClass with
          | .array _ _ => .needs (.apparentSurface ty)
          | .static .string => .ready context.string
          | .static .number => .ready context.number
          | .static .boolean => .ready context.boolean
          | .static .object => .ready context.object
          | .static .function => .ready context.callableFunction

/-- `ProjectionPlan::relation_demand`.  There is no demand for an id that is out of range,
    which is a panic in the source. -/
def relationDemand (plan : ProjectionPlan) (store : Store) (ty : TypeId) :
    Option RelationDemand :=
  match store.tag ty with
  | some .classInstance =>
    if ty ∉ plan.resolvedClassProjections then some (.classProjection ty) else none
  | some .declared | some .instantiation =>
    if ty ∉ plan.resolvedEvaluations then some (.evaluation ty) else none
  | some .deferredIndexedAccess | some .keyof | some .conditional | some .mapped
  | some .template =>
    if ty ∉ plan.resolvedEvaluations ∧ ((plan.durable ty).all (fun result => result = ty)) then
      some (.evaluation ty)
    else none
  | _ => none

/-! ## §4 Normalization -/

variable {plan : ProjectionPlan} {store : Store} {ty : TypeId}

/-- A normalized type is not on the frontier. -/
theorem notMem_frontier_of_normalize {normalized : TypeId} (h : plan.normalize ty = .ok normalized) :
    normalized ∉ plan.frontier := by
  unfold normalize at h
  have hblocked := follow_ok h
  exact lookup_eq_none.mp hblocked

/-! ## §5 Answered types -/

/-- Nothing more is asked about the type. -/
def Answered (plan : ProjectionPlan) (store : Store) (ty : TypeId) : Prop :=
  ty ∈ plan.frontier ∨ plan.relationDemand store ty = none

variable {demand : RelationDemand}

/-- The demand of a type is for its projection or its evaluation. -/
theorem demand_of_relationDemand (h : plan.relationDemand store ty = some demand) :
    demand = .classProjection ty ∨ demand = .evaluation ty := by
  unfold relationDemand at h
  split at h
  case h_1 =>
    split_ifs at h
    cases h
    exact .inl rfl
  case h_9 => cases h
  all_goals
    split_ifs at h
    cases h
    exact .inr rfl

/-- A demand is about the type that was looked at. -/
theorem ty_of_relationDemand (h : plan.relationDemand store ty = some demand) : demand.ty = ty := by
  rcases demand_of_relationDemand h with rfl | rfl
  · rfl
  · rfl

/-- The surface is needed of the type that was looked at, and has not been found yet. -/
theorem needs_of_apparentSurface (h : plan.apparentSurface store ty = .needs demand) :
    demand = .apparentSurface ty ∧ plan.surfaced ty = false := by
  unfold apparentSurface at h
  split at h
  case h_1 => cases h
  case h_2 hoverlay =>
    split_ifs at h with hunavailable
    split at h
    · cases h
    · split at h
      · cases h
      · split at h
        case h_1 =>
          cases h
          refine ⟨rfl, ?_⟩
          unfold surfaced
          rw [decide_eq_false_iff_not, not_or]
          exact ⟨lookup_eq_none.mp hoverlay, hunavailable⟩
        all_goals cases h

/-- **What is left to ask about an answered type**: it is given up on, or whatever it normalizes
    to asks about something else. -/
theorem Answered.normalize (h : plan.Answered store ty) :
    (∃ reason, plan.normalize ty = .error reason ∧ ∃ x, plan.frontier.lookup x = some reason) ∨
      ∃ normalized, plan.normalize ty = .ok normalized ∧
        ∀ demand, plan.relationDemand store normalized = some demand → demand.ty ≠ ty := by
  cases hnormalize : plan.normalize ty with
  | error reason => exact .inl ⟨reason, rfl, follow_error hnormalize⟩
  | ok normalized =>
    refine .inr ⟨normalized, rfl, ?_⟩
    intro demand hdemand hty
    rw [ty_of_relationDemand hdemand] at hty
    subst hty
    rcases h with hfrontier | hnone
    · exact notMem_frontier_of_normalize hnormalize hfrontier
    · rw [hnone] at hdemand
      cases hdemand

/-! ## §6 Growing plans

A planner changes its plan in six ways.  None of them takes an answer back. -/

/-- `frontier.entry(ty).or_insert(reason)`. -/
def giveUp (plan : ProjectionPlan) (ty : TypeId) (reason : Exhaustion) : ProjectionPlan :=
  { plan with
    frontier := if ty ∈ plan.frontier then plan.frontier else plan.frontier.insert ty reason }

/-- The evaluation enters the overlay, unless it is the type itself. -/
def recordEvaluation (plan : ProjectionPlan) (source result : TypeId) : ProjectionPlan :=
  { plan with
    resolvedEvaluations := insert source plan.resolvedEvaluations
    evaluationOverlay := if source ≠ result then plan.evaluationOverlay.insert source result
      else plan.evaluationOverlay }

/-- A type with its provenance enters the overlay, unless it leads to itself. -/
def overlayDerived (plan : ProjectionPlan) (source result : DerivedType) : ProjectionPlan :=
  { plan with
    derivedOverlay := if source ≠ result then plan.derivedOverlay.insert source result
      else plan.derivedOverlay }

/-- The projection is resolved from now on. -/
def resolveProjection (plan : ProjectionPlan) (application : TypeId) : ProjectionPlan :=
  { plan with resolvedClassProjections := insert application plan.resolvedClassProjections }

/-- The projection enters the overlay, unless it is the application itself. -/
def overlayProjection (plan : ProjectionPlan) (application projection : TypeId) :
    ProjectionPlan :=
  { plan with
    classProjectionOverlay := if projection ≠ application then
        plan.classProjectionOverlay.insert application projection
      else plan.classProjectionOverlay }

/-- The answer to a demand for a surface. -/
def recordSurface (plan : ProjectionPlan) (source : TypeId) : Option TypeId → ProjectionPlan
  | some surface =>
    { plan with apparentSurfaceOverlay := plan.apparentSurfaceOverlay.insert source surface }
  | none =>
    { plan with apparentSurfaceUnavailable := insert source plan.apparentSurfaceUnavailable }

/-- No answer is taken back. -/
structure Grown (plan plan' : ProjectionPlan) : Prop where
  memo : plan'.durableEvaluationMemo = plan.durableEvaluationMemo
  frontier : ∀ ty ∈ plan.frontier, ty ∈ plan'.frontier
  projections : plan.resolvedClassProjections ⊆ plan'.resolvedClassProjections
  evaluations : plan.resolvedEvaluations ⊆ plan'.resolvedEvaluations
  surfaces : ∀ ty, plan.surfaced ty = true → plan'.surfaced ty = true

theorem Grown.refl (plan : ProjectionPlan) : plan.Grown plan where
  memo := rfl
  frontier := fun _ h => h
  projections := subset_rfl
  evaluations := subset_rfl
  surfaces := fun _ h => h

theorem Grown.trans {p₁ p₂ p₃ : ProjectionPlan} (h₁₂ : p₁.Grown p₂) (h₂₃ : p₂.Grown p₃) :
    p₁.Grown p₃ where
  memo := h₂₃.memo.trans h₁₂.memo
  frontier := fun ty h => h₂₃.frontier ty (h₁₂.frontier ty h)
  projections := h₁₂.projections.trans h₂₃.projections
  evaluations := h₁₂.evaluations.trans h₂₃.evaluations
  surfaces := fun ty h => h₂₃.surfaces ty (h₁₂.surfaces ty h)

theorem mem_frontier_giveUp (reason : Exhaustion) : ty ∈ (plan.giveUp ty reason).frontier := by
  unfold giveUp
  by_cases h : ty ∈ plan.frontier
  · simp [h]
  · simp [h]

theorem grown_giveUp (reason : Exhaustion) : plan.Grown (plan.giveUp ty reason) :=
  { Grown.refl plan with
    frontier := by
      intro x hx
      unfold giveUp
      by_cases h : ty ∈ plan.frontier
      · simpa [h] using hx
      · simp [h, hx] }

theorem grown_recordEvaluation (source result : TypeId) :
    plan.Grown (plan.recordEvaluation source result) :=
  { Grown.refl plan with evaluations := Finset.subset_insert _ _ }

theorem grown_overlayDerived (source result : DerivedType) :
    plan.Grown (plan.overlayDerived source result) :=
  { Grown.refl plan with }

theorem grown_resolveProjection (application : TypeId) :
    plan.Grown (plan.resolveProjection application) :=
  { Grown.refl plan with projections := Finset.subset_insert _ _ }

theorem grown_overlayProjection (application projection : TypeId) :
    plan.Grown (plan.overlayProjection application projection) :=
  { Grown.refl plan with }

theorem surfaced_recordSurface (source : TypeId) (surface : Option TypeId) :
    (plan.recordSurface source surface).surfaced source = true := by
  cases surface <;> simp [recordSurface, surfaced]

theorem grown_recordSurface (source : TypeId) (surface : Option TypeId) :
    plan.Grown (plan.recordSurface source surface) := by
  cases surface with
  | none =>
    refine { Grown.refl plan with surfaces := ?_ }
    intro x hx
    simp only [surfaced, decide_eq_true_eq, recordSurface, Finset.mem_insert] at hx ⊢
    exact hx.imp id .inr
  | some surface =>
    refine { Grown.refl plan with surfaces := ?_ }
    intro x hx
    simp only [surfaced, decide_eq_true_eq, recordSurface, mem_insert] at hx ⊢
    exact hx.imp .inr id

/-- A larger plan asks for less. -/
theorem relationDemand_grown {plan' : ProjectionPlan} {store' : Store}
    (htag : store'.tag ty = store.tag ty) (hgrown : plan.Grown plan')
    (h : plan.relationDemand store ty = none) : plan'.relationDemand store' ty = none := by
  have hdurable : plan'.durable ty = plan.durable ty := by
    unfold durable
    rw [hgrown.memo]
  unfold relationDemand at h ⊢
  rw [htag, hdurable]
  split at h
  case h_1 =>
    by_cases hty : ty ∈ plan.resolvedClassProjections
    · simp [hgrown.projections hty]
    · simp [hty] at h
  case h_9 => rfl
  all_goals
    by_cases hty : ty ∈ plan.resolvedEvaluations
    · simp [hgrown.evaluations hty]
    · simp_all

/-- An answered type stays answered. -/
theorem Answered.grown {plan' : ProjectionPlan} {store' : Store} (h : plan.Answered store ty)
    (htag : store'.tag ty = store.tag ty) (hgrown : plan.Grown plan') :
    plan'.Answered store' ty :=
  h.imp (hgrown.frontier ty) (relationDemand_grown htag hgrown)

/-! ## §7 Coherent plans -/

/-- The overlays agree with the resolved sets. -/
structure Coherent (plan : ProjectionPlan) (store : Store) : Prop where
  evaluated : ∀ ty ∈ plan.evaluationOverlay, ty ∈ plan.resolvedEvaluations
  derived : ∀ derived ∈ plan.derivedOverlay,
    store.tag derived.ty = some .classInstance ∨ derived.ty ∈ plan.resolvedEvaluations
  projected : ∀ ty ∈ plan.classProjectionOverlay, store.tag ty = some .classInstance

namespace Coherent

section OnStore

variable (h : plan.Coherent store)
include h

/-- Tags that stay keep a plan coherent. -/
theorem onStore {store' : Store}
    (htags : ∀ ty tag, store.tag ty = some tag → store'.tag ty = some tag) :
    plan.Coherent store' where
  evaluated := h.evaluated
  derived := fun derived hmem => (h.derived derived hmem).imp (htags _ _) id
  projected := fun ty hty => htags _ _ (h.projected ty hty)

theorem giveUp (ty : TypeId) (reason : Exhaustion) :
    (plan.giveUp ty reason).Coherent store :=
  ⟨h.evaluated, h.derived, h.projected⟩

theorem resolveProjection (application : TypeId) :
    (plan.resolveProjection application).Coherent store :=
  ⟨h.evaluated, h.derived, h.projected⟩

theorem recordSurface (source : TypeId) (surface : Option TypeId) :
    (plan.recordSurface source surface).Coherent store := by
  cases surface <;> exact ⟨h.evaluated, h.derived, h.projected⟩

theorem recordEvaluation (source result : TypeId) :
    (plan.recordEvaluation source result).Coherent store where
  evaluated := by
    intro ty hty
    unfold ProjectionPlan.recordEvaluation at hty ⊢
    by_cases hsame : source = result
    · simp only [hsame, ne_eq, not_true_eq_false, if_false] at hty
      exact Finset.mem_insert_of_mem (h.evaluated ty hty)
    · simp only [ne_eq, hsame, not_false_eq_true, if_true, mem_insert] at hty
      rcases hty with rfl | hty
      · exact Finset.mem_insert_self _ _
      · exact Finset.mem_insert_of_mem (h.evaluated ty hty)
  derived := fun derived hmem =>
    (h.derived derived hmem).imp id (fun hmem => Finset.mem_insert_of_mem hmem)
  projected := h.projected

theorem overlayDerived {source : DerivedType} (result : DerivedType)
    (hsource : store.tag source.ty = some .classInstance ∨ source.ty ∈ plan.resolvedEvaluations) :
    (plan.overlayDerived source result).Coherent store where
  evaluated := h.evaluated
  derived := by
    intro derived hmem
    unfold ProjectionPlan.overlayDerived at hmem
    by_cases hsame : source = result
    · simp only [hsame, ne_eq, not_true_eq_false, if_false] at hmem
      exact h.derived derived hmem
    · simp only [ne_eq, hsame, not_false_eq_true, if_true, mem_insert] at hmem
      rcases hmem with rfl | hmem
      · exact hsource
      · exact h.derived derived hmem
  projected := h.projected

theorem overlayProjection {application : TypeId} (projection : TypeId)
    (happlication : store.tag application = some .classInstance) :
    (plan.overlayProjection application projection).Coherent store where
  evaluated := h.evaluated
  derived := h.derived
  projected := by
    intro ty hty
    unfold ProjectionPlan.overlayProjection at hty
    by_cases hsame : projection = application
    · simp only [hsame, ne_eq, not_true_eq_false, if_false] at hty
      exact h.projected ty hty
    · simp only [ne_eq, hsame, not_false_eq_true, if_true, mem_insert] at hty
      rcases hty with rfl | hty
      · exact happlication
      · exact h.projected ty hty

end OnStore

end Coherent

end ProjectionPlan

end Typokat.Query
