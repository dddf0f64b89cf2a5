import Typokat.Lib.Scopes
import Typokat.Relate.Engine

/-!
# Binder Environments

`binder_environment_id` flattens the stack of binder contexts, and the engine takes two stacks
with one flat environment for the same.  The environment keeps what is read of the stack as it
stands.  Below another context one more thing can be read: when that context binds one of two
parameters on one side only, their alignment has to be visible in the other direction.

## Main Definitions

- `oneWayAligned` : two parameters are aligned through the entries of one direction alone
- `SameReadings` : nothing that is read of two stacks tells them apart

## Main Results

- `sameReadings_of_environment` : the environment and the one-way alignments determine the readings
- `SameReadings.cons` : that stays so below a further context
- `SameReadings.specialize` : and when a parameter is specialized
-/

namespace Typokat.Relate

open Types Lib BinderRelationContext List

/-! ## §1 What the flat environment keeps -/

/-- The constraint that a context gives to a parameter. -/
def BinderRelationContext.constraintOf (context : BinderRelationContext) (param : TypeParamId) :
    Option TypeId :=
  (context.constraints.lookup param).join

/-- The constraint of a parameter that can be specialized, and what it is specialized to. -/
def BinderRelationContext.specializationOf (context : BinderRelationContext) (param : TypeParamId) :
    Option TypeId × Option TypeId :=
  (context.constraintOf param, context.sourceInstantiations.lookup param)

variable (param : TypeParamId)

/-- Whether a context binds a parameter. -/
def BinderRelationContext.binds (context : BinderRelationContext) : Bool :=
  decide (param ∈ context.parameters)

/-- Whether a context can specialize a parameter. -/
def BinderRelationContext.specializes (context : BinderRelationContext) :
    Bool :=
  decide (param ∈ context.instantiableSource)

theorem lookup_foldl_insert {V : Type} (value : TypeParamId → V) (params : List TypeParamId)
    (map : FxHashMap TypeParamId V) (param : TypeParamId) :
    (params.foldl (fun map param => map.insert param (value param)) map).lookup param =
      if param ∈ params then some (value param) else map.lookup param := by
  induction params generalizing map with
  | nil => rfl
  | cons first params ih =>
    rw [foldl_cons, ih]
    by_cases hrest : param ∈ params
    · rw [if_pos hrest, if_pos (mem_cons_of_mem _ hrest)]
    · rw [if_neg hrest]
      by_cases hfirst : param = first
      · rw [hfirst, Finmap.lookup_insert, if_pos mem_cons_self]
      · rw [Finmap.lookup_insert_of_ne _ hfirst, if_neg]
        rw [mem_cons]
        exact fun h => h.elim hfirst hrest

theorem lookup_foldl_sorted {V : Type} (value : TypeParamId → V) (params : FxHashSet TypeParamId)
    (map : FxHashMap TypeParamId V) (param : TypeParamId) :
    ((FxHashSet.sorted params).foldl (fun map param => map.insert param (value param)) map).lookup
      param = if param ∈ params then some (value param) else map.lookup param := by
  rw [lookup_foldl_insert]
  simp only [FxHashSet.mem_sorted]

/-- Constraints: the innermost context of a parameter decides. -/
theorem lookup_constraints (contexts : List BinderRelationContext) (param : TypeParamId) :
    (collectEnvironment contexts).constraints.lookup param =
      (contexts.find? (binds param)).map
        (fun context => context.constraintOf param) := by
  induction contexts with
  | nil => rfl
  | cons context outer ih =>
    have hfold := lookup_foldl_sorted (fun param => context.constraintOf param)
      context.parameters (collectEnvironment outer).constraints param
    rw [ih] at hfold
    refine hfold.trans ?_
    by_cases h : param ∈ context.parameters
    · rw [if_pos h, find?_cons_of_pos (by simpa [binds] using h)]
      rfl
    · rw [if_neg h, find?_cons_of_neg (by simpa [binds] using h)]

/-- Specializations: the innermost context that can specialize a parameter decides. -/
theorem lookup_sourceSpecializations (contexts : List BinderRelationContext) (param : TypeParamId) :
    (collectEnvironment contexts).sourceSpecializations.lookup param =
      (contexts.find? (specializes param)).map
        (fun context => context.specializationOf param) := by
  induction contexts with
  | nil => rfl
  | cons context outer ih =>
    have hfold := lookup_foldl_sorted (fun param => context.specializationOf param)
      context.instantiableSource (collectEnvironment outer).sourceSpecializations param
    rw [ih] at hfold
    refine hfold.trans ?_
    by_cases h : param ∈ context.instantiableSource
    · rw [if_pos h, find?_cons_of_pos (by simpa [specializes] using h)]
      rfl
    · rw [if_neg h, find?_cons_of_neg (by simpa [specializes] using h)]

theorem mem_alignmentSet {map : FxHashMap TypeParamId TypeParamId} {src tgt : TypeParamId} :
    (src, tgt) ∈ alignmentSet map ↔ map.lookup src = some tgt := by
  unfold alignmentSet
  rw [mem_toFinset, FxHashMap.mem_sortedEntries]

/-- Alignments: the union over all contexts. -/
theorem mem_sourceToTargetAlignments {contexts : List BinderRelationContext} {src tgt : TypeParamId} :
    (src, tgt) ∈ (collectEnvironment contexts).sourceToTargetAlignments ↔
      ∃ context ∈ contexts, context.sourceToTarget.lookup src = some tgt := by
  induction contexts with
  | nil => simp [collectEnvironment]
  | cons context outer ih =>
    simp only [collectEnvironment, Finset.mem_union, ih, mem_alignmentSet, exists_mem_cons_iff]
    exact or_comm

theorem mem_targetToSourceAlignments {contexts : List BinderRelationContext} {src tgt : TypeParamId} :
    (src, tgt) ∈ (collectEnvironment contexts).targetToSourceAlignments ↔
      ∃ context ∈ contexts, context.targetToSource.lookup src = some tgt := by
  induction contexts with
  | nil => simp [collectEnvironment]
  | cons context outer ih =>
    simp only [collectEnvironment, Finset.mem_union, ih, mem_alignmentSet, exists_mem_cons_iff]
    exact or_comm

/-! ## §2 Visible alignments -/

/-- With no direction left nothing is aligned. -/
theorem paramIdsAligned_hidden (src tgt : TypeParamId) (contexts : List BinderRelationContext) :
    paramIdsAligned src tgt contexts false false = false := by
  cases contexts with
  | nil => rfl
  | cons context outer => rfl

/-- What is aligned has an entry in some context. -/
theorem exists_entry_of_aligned {src tgt : TypeParamId} {contexts : List BinderRelationContext}
    {direct reverse : Bool} (h : paramIdsAligned src tgt contexts direct reverse = true) :
    (∃ context ∈ contexts, context.sourceToTarget.lookup src = some tgt) ∨
      ∃ context ∈ contexts, context.targetToSource.lookup src = some tgt := by
  induction contexts generalizing direct reverse with
  | nil => cases h
  | cons context outer ih =>
    rw [exists_mem_cons_iff, exists_mem_cons_iff]
    unfold paramIdsAligned at h
    split at h
    · rename_i hdirect
      rw [Bool.and_eq_true, beq_iff_eq] at hdirect
      exact .inl (.inl hdirect.2)
    · split at h
      · rename_i hreverse
        rw [Bool.and_eq_true, beq_iff_eq] at hreverse
        exact .inr (.inl hreverse.2)
      · dsimp only at h
        split at h
        · cases h
        · exact (ih h).imp .inr .inr

/-- Two parameters are aligned through the entries of one direction alone. -/
def oneWayAligned (contexts : List BinderRelationContext) (reverse : Bool) (src tgt : TypeParamId) :
    Bool :=
  paramIdsAligned src tgt contexts (!reverse) reverse

/-- The deferred alignments of the environment are those that are visible now. -/
theorem mem_deferredAlignments {contexts : List BinderRelationContext} {src tgt : TypeParamId} :
    (src, tgt) ∈ (stackBinderEnvironment contexts).deferredAlignments ↔
      contextualParamIdsAreAligned contexts src tgt = true := by
  unfold stackBinderEnvironment
  rw [Finset.mem_filter, Finset.mem_union, mem_sourceToTargetAlignments,
    mem_targetToSourceAlignments]
  exact ⟨fun h => h.2, fun h => ⟨exists_entry_of_aligned h, h⟩⟩

/-! ## §3 Readings -/

/-- Nothing that is read of two stacks tells them apart, below further contexts neither: a context
    that hides one direction of a parameter and itself hides the other. -/
structure SameReadings (contexts contexts' : List BinderRelationContext) : Prop where
  sourceToTarget : ∀ src tgt,
    (∃ context ∈ contexts, context.sourceToTarget.lookup src = some tgt) ↔
      ∃ context ∈ contexts', context.sourceToTarget.lookup src = some tgt
  targetToSource : ∀ src tgt,
    (∃ context ∈ contexts, context.targetToSource.lookup src = some tgt) ↔
      ∃ context ∈ contexts', context.targetToSource.lookup src = some tgt
  constraint : ∀ param,
    (contexts.find? (BinderRelationContext.binds param)).map (fun c => c.constraintOf param) =
      (contexts'.find? (BinderRelationContext.binds param)).map (fun c => c.constraintOf param)
  specialization : ∀ param,
    (contexts.find? (BinderRelationContext.specializes param)).map
        (fun c => c.specializationOf param) =
      (contexts'.find? (BinderRelationContext.specializes param)).map
        (fun c => c.specializationOf param)
  aligned : ∀ src tgt direct reverse, (src = tgt → direct = reverse) →
    paramIdsAligned src tgt contexts direct reverse =
      paramIdsAligned src tgt contexts' direct reverse
  isEmpty : contexts.isEmpty = contexts'.isEmpty

variable {contexts contexts' : List BinderRelationContext}

/-- **The environment and the one-way alignments determine the readings.** -/
theorem sameReadings_of_environment
    (henvironment : stackBinderEnvironment contexts = stackBinderEnvironment contexts')
    (hempty : contexts.isEmpty = contexts'.isEmpty)
    (honeWay : ∀ reverse src tgt, src ≠ tgt →
      oneWayAligned contexts reverse src tgt = oneWayAligned contexts' reverse src tgt) :
    SameReadings contexts contexts' where
  sourceToTarget := by
    intro src tgt
    have h := congrArg StackBinderEnvironment.sourceToTargetAlignments henvironment
    rw [← mem_sourceToTargetAlignments, ← mem_sourceToTargetAlignments]
    exact Finset.ext_iff.mp h (src, tgt)
  targetToSource := by
    intro src tgt
    have h := congrArg StackBinderEnvironment.targetToSourceAlignments henvironment
    rw [← mem_targetToSourceAlignments, ← mem_targetToSourceAlignments]
    exact Finset.ext_iff.mp h (src, tgt)
  constraint := by
    intro param
    have h := congrArg StackBinderEnvironment.constraints henvironment
    rw [← lookup_constraints, ← lookup_constraints]
    exact congrArg (fun map => map.lookup param) h
  specialization := by
    intro param
    have h := congrArg StackBinderEnvironment.sourceSpecializations henvironment
    rw [← lookup_sourceSpecializations, ← lookup_sourceSpecializations]
    exact congrArg (fun map => map.lookup param) h
  aligned := by
    intro src tgt direct reverse hsame
    cases direct with
    | false =>
      cases reverse with
      | false => rw [paramIdsAligned_hidden, paramIdsAligned_hidden]
      | true => exact honeWay true src tgt (fun heq => Bool.false_ne_true (hsame heq))
    | true =>
      cases reverse with
      | false => exact honeWay false src tgt (fun heq => Bool.false_ne_true (hsame heq).symm)
      | true =>
        have h := congrArg StackBinderEnvironment.deferredAlignments henvironment
        rw [Bool.eq_iff_iff]
        show contextualParamIdsAreAligned contexts src tgt = true ↔
          contextualParamIdsAreAligned contexts' src tgt = true
        rw [← mem_deferredAlignments, ← mem_deferredAlignments, h]
  isEmpty := hempty

namespace SameReadings

/-- Stacks with the same readings have one environment. -/
theorem environment (h : SameReadings contexts contexts') :
    stackBinderEnvironment contexts = stackBinderEnvironment contexts' := by
  have hdeferred : (stackBinderEnvironment contexts).deferredAlignments =
      (stackBinderEnvironment contexts').deferredAlignments := by
    ext ⟨src, tgt⟩
    rw [mem_deferredAlignments, mem_deferredAlignments]
    exact Bool.eq_iff_iff.mp (h.aligned src tgt true true (fun _ => rfl))
  have hsourceToTarget : (collectEnvironment contexts).sourceToTargetAlignments =
      (collectEnvironment contexts').sourceToTargetAlignments := by
    ext ⟨src, tgt⟩
    rw [mem_sourceToTargetAlignments, mem_sourceToTargetAlignments]
    exact h.sourceToTarget src tgt
  have htargetToSource : (collectEnvironment contexts).targetToSourceAlignments =
      (collectEnvironment contexts').targetToSourceAlignments := by
    ext ⟨src, tgt⟩
    rw [mem_targetToSourceAlignments, mem_targetToSourceAlignments]
    exact h.targetToSource src tgt
  have hconstraints : (collectEnvironment contexts).constraints =
      (collectEnvironment contexts').constraints := by
    refine Finmap.ext_lookup (fun param => ?_)
    rw [lookup_constraints, lookup_constraints]
    exact h.constraint param
  have hspecializations : (collectEnvironment contexts).sourceSpecializations =
      (collectEnvironment contexts').sourceSpecializations := by
    refine Finmap.ext_lookup (fun param => ?_)
    rw [lookup_sourceSpecializations, lookup_sourceSpecializations]
    exact h.specialization param
  show StackBinderEnvironment.mk _ _ (stackBinderEnvironment contexts).deferredAlignments _ _ =
    StackBinderEnvironment.mk _ _ (stackBinderEnvironment contexts').deferredAlignments _ _
  rw [hdeferred, hsourceToTarget, htargetToSource, hconstraints, hspecializations]

/-- A constraint below one more context. -/
theorem map_find?_cons {A : Type} {found : BinderRelationContext → Bool}
    {g : BinderRelationContext → A}
    (h : (contexts.find? found).map g = (contexts'.find? found).map g)
    (context : BinderRelationContext) : ((context :: contexts).find? found).map g =
      ((context :: contexts').find? found).map g := by
  rw [find?_cons, find?_cons]
  split
  · rfl
  · exact h

/-- **The readings below one more context.** -/
theorem cons (h : SameReadings contexts contexts') (context : BinderRelationContext) :
    SameReadings (context :: contexts) (context :: contexts') where
  sourceToTarget := by
    intro src tgt
    rw [exists_mem_cons_iff, exists_mem_cons_iff, h.sourceToTarget]
  targetToSource := by
    intro src tgt
    rw [exists_mem_cons_iff, exists_mem_cons_iff, h.targetToSource]
  constraint := fun param => map_find?_cons (h.constraint param) context
  specialization := fun param => map_find?_cons (h.specialization param) context
  aligned := by
    intro src tgt direct reverse hsame
    unfold paramIdsAligned
    dsimp only
    rw [h.aligned]
    rintro rfl
    -- for one parameter the two directions are hidden together
    rw [hsame rfl, Bool.and_comm (decide _)]
  isEmpty := rfl

end SameReadings

/-! ## §4 Specialization -/

/-- `specialize_source_parameter` in one context. -/
def BinderRelationContext.specialize (ty : TypeId) (context : BinderRelationContext) :
    BinderRelationContext :=
  { context with sourceInstantiations := context.sourceInstantiations.insert param ty }

/-- A context without its instantiations. -/
def BinderRelationContext.frame (context : BinderRelationContext) : BinderRelationContext :=
  { context with sourceInstantiations := ∅ }

/-- Alignments do not depend on instantiations. -/
theorem paramIdsAligned_frame (src tgt : TypeParamId) (contexts : List BinderRelationContext)
    (direct reverse : Bool) :
    paramIdsAligned src tgt (contexts.map frame) direct reverse =
      paramIdsAligned src tgt contexts direct reverse := by
  induction contexts generalizing direct reverse with
  | nil => rfl
  | cons context outer ih =>
    rw [map_cons, paramIdsAligned, paramIdsAligned]
    dsimp only [frame]
    rw [ih]
    rfl

theorem exists_mem_frame (P : BinderRelationContext → Prop)
    (hframe : ∀ context : BinderRelationContext, P context.frame ↔ P context)
    (contexts : List BinderRelationContext) :
    (∃ context ∈ contexts.map frame, P context) ↔
      ∃ context ∈ contexts, P context := by
  simp only [mem_map, exists_exists_and_eq_and, hframe]

/-- Specialize a parameter in the innermost context that can do so. -/
def specializeInner (ty : TypeId) (contexts : List BinderRelationContext) :
    List BinderRelationContext :=
  Scopes.update (BinderRelationContext.specializes param) (.specialize param ty) contexts

theorem map_frame_specializeInner (ty : TypeId) (contexts : List BinderRelationContext) :
    (specializeInner param ty contexts).map frame =
      contexts.map frame := by
  have hkeeps : ∀ context : BinderRelationContext,
      (context.specialize param ty).frame = context.frame := fun _ => rfl
  exact Scopes.map_update hkeeps contexts

/-- The specialization of a parameter afterwards. -/
theorem specialization_specializeInner (ty : TypeId) (contexts : List BinderRelationContext) :
    ((specializeInner param ty contexts).find? (specializes param)).map
        (fun c => c.specializationOf param) =
      ((contexts.find? (specializes param)).map
        (fun c => c.specializationOf param)).map (fun entry => (entry.1, some ty)) := by
  have hkeeps : ∀ context : BinderRelationContext,
      (context.specialize param ty).specializes param = context.specializes param := fun _ => rfl
  unfold specializeInner
  rw [Scopes.find?_update hkeeps, Option.map_map, Option.map_map]
  congr 1
  funext context
  simp only [Function.comp_apply, specializationOf, specialize, constraintOf, Finmap.lookup_insert]

/-- The other parameters keep theirs. -/
theorem specialization_specializeInner_of_ne {param other : TypeParamId} (hne : other ≠ param)
    (ty : TypeId) (contexts : List BinderRelationContext) :
    ((specializeInner param ty contexts).find? (specializes other)).map
        (fun c => c.specializationOf other) =
      (contexts.find? (specializes other)).map
        (fun c => c.specializationOf other) := by
  have hkeeps : ∀ context : BinderRelationContext,
      ((context.specialize param ty).specializes other,
        (context.specialize param ty).specializationOf other) =
      (context.specializes other, context.specializationOf other) := by
    intro context
    simp only [specializationOf, specialize, constraintOf, specializes,
      Finmap.lookup_insert_of_ne _ hne]
    rfl
  have hmap : (specializeInner param ty contexts).map
      (fun context => (context.specializes other, context.specializationOf other)) =
      contexts.map (fun context => (context.specializes other, context.specializationOf other)) :=
    Scopes.map_update hkeeps contexts
  have hfind := congrArg (Option.map Prod.snd) (Scopes.map_find?_of_map_eq Prod.fst hmap)
  rw [Option.map_map, Option.map_map] at hfind
  exact hfind

/-- **The readings after a specialization.** -/
theorem SameReadings.specialize (h : SameReadings contexts contexts') (param : TypeParamId)
    (ty : TypeId) :
    SameReadings (specializeInner param ty contexts) (specializeInner param ty contexts') := by
  have hframe := map_frame_specializeInner param ty
  constructor
  case sourceToTarget =>
    intro src tgt
    rw [← exists_mem_frame _ (fun _ => Iff.rfl), hframe, exists_mem_frame _ (fun _ => Iff.rfl),
      h.sourceToTarget, ← exists_mem_frame _ (fun _ => Iff.rfl), ← hframe,
      exists_mem_frame _ (fun _ => Iff.rfl)]
  case targetToSource =>
    intro src tgt
    rw [← exists_mem_frame _ (fun _ => Iff.rfl), hframe, exists_mem_frame _ (fun _ => Iff.rfl),
      h.targetToSource, ← exists_mem_frame _ (fun _ => Iff.rfl), ← hframe,
      exists_mem_frame _ (fun _ => Iff.rfl)]
  case constraint =>
    intro other
    have hfind : ∀ contexts : List BinderRelationContext,
        ((specializeInner param ty contexts).find? (binds other)).map
          (fun c => c.constraintOf other) =
        (contexts.find? (binds other)).map
          (fun c => c.constraintOf other) := by
      intro contexts
      have hmap := congrArg (Option.map (fun c => c.constraintOf other))
        (Scopes.map_find?_of_map_eq (binds other) (hframe contexts))
      rw [Option.map_map, Option.map_map] at hmap
      exact hmap
    rw [hfind, hfind, h.constraint]
  case specialization =>
    intro other
    by_cases heq : other = param
    · rw [heq, specialization_specializeInner, specialization_specializeInner, h.specialization]
    · rw [specialization_specializeInner_of_ne heq, specialization_specializeInner_of_ne heq,
        h.specialization]
  case aligned =>
    intro src tgt direct reverse hsame
    rw [← paramIdsAligned_frame, hframe, paramIdsAligned_frame, h.aligned src tgt _ _ hsame,
      ← paramIdsAligned_frame, ← hframe, paramIdsAligned_frame]
  case isEmpty =>
    have hlength : ∀ contexts : List BinderRelationContext,
        (specializeInner param ty contexts).isEmpty = contexts.isEmpty := by
      intro contexts
      rw [← isEmpty_map, hframe, isEmpty_map]
    rw [hlength, hlength, h.isEmpty]

end Typokat.Relate
