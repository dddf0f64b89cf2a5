import Typokat.Check.Components
import Typokat.Types.Intern

/-!
# Class Drafts and their Dependency Graph (`checker/classes/construction.rs`)

A class declaration is registered as a draft: its templates, the types that its surface
mentions, its heritage, and what poisons it.  A class depends on its heritage targets and
on every class whose instance type its surface mentions.

The binder metadata of a callable that no function here reads (its site, tickets, frame,
receiver, parameters and declared return) is left out.
-/

namespace Typokat.Check

open Types Lib Std.TreeMap Std

/-! ## §1 The registry of published classes (`class_semantics.rs`) -/

inductive ClassConstructionState
  | pending | building | built | published | poisoned
  deriving DecidableEq, Repr

inductive PublishedClassPoison
  | heritage | initializer | surface
  deriving DecidableEq, Repr

structure PublishedClassSurface where
  classId : ClassId
  typeParams : List TypeParamId
  instanceTemplate : TypeId
  staticTemplate : TypeId
  constructorTemplate : Option TypeId
  deriving DecidableEq, Repr

/-- The reasons for which the demand of a class is exhausted. -/
inductive Exhaustion
  | classNotPublished (classId : ClassId) (state : ClassConstructionState)
  | classHeritagePoison (classId : ClassId)
  | classInitializerPoison (classId : ClassId)
  | classSurfacePoison (classId : ClassId)
  deriving DecidableEq, Repr

/-- `DemandOutcome`. -/
inductive DemandOutcome (T : Type)
  | ready (value : T)
  | exhausted (reason : Exhaustion)
  deriving DecidableEq, Repr

/-- `PublishedClasses`; its layers only matter for sharing and are read through. -/
structure PublishedClasses where
  states : FxHashMap ClassId ClassConstructionState := ∅
  surfaces : FxHashMap ClassId PublishedClassSurface := ∅
  poison : FxHashMap ClassId PublishedClassPoison := ∅

namespace PublishedClasses

variable (classes : PublishedClasses)

variable (classId : ClassId)

/-- `PublishedClasses::require`. -/
def require : DemandOutcome Unit :=
  match classes.states.lookup classId with
  | some .published => .ready ()
  | some .poisoned =>
    match classes.poison.lookup classId with
    | some .initializer => .exhausted (.classInitializerPoison classId)
    | some .surface => .exhausted (.classSurfacePoison classId)
    | some .heritage => .exhausted (.classHeritagePoison classId)
    | none => .exhausted (.classHeritagePoison classId)
  | some state => .exhausted (.classNotPublished classId state)
  | none => .exhausted (.classNotPublished classId .pending)

/-- `PublishedClasses::published_class`. -/
def publishedClass :
    DemandOutcome PublishedClassSurface :=
  match classes.require classId with
  | .ready () =>
    match classes.surfaces.lookup classId with
    | some surface => .ready surface
    | none => .exhausted (.classNotPublished classId .built)
  | .exhausted reason => .exhausted reason

/-- `ClassHeritagePoison | ClassInitializerPoison | ClassSurfacePoison`. -/
def isPoisoned : Bool :=
  match classes.publishedClass classId with
  | .exhausted (.classHeritagePoison _) => true
  | .exhausted (.classInitializerPoison _) => true
  | .exhausted (.classSurfacePoison _) => true
  | _ => false

/-- `ClassNotPublished`. -/
def isUnknown : Bool :=
  match classes.publishedClass classId with
  | .exhausted (.classNotPublished _ _) => true
  | _ => false

/-- The surface of a class that is ready. -/
def surface (classes : PublishedClasses) (classId : ClassId) : Option PublishedClassSurface :=
  match classes.publishedClass classId with
  | .ready surface => some surface
  | .exhausted _ => none

/-- A class of the registry is known, poisoned or ready. -/
theorem isUnknown_or_isPoisoned_or_surface :
    classes.isUnknown classId = true ∨ classes.isPoisoned classId = true ∨
      ∃ surface, classes.surface classId = some surface := by
  unfold isUnknown isPoisoned surface
  cases classes.publishedClass classId with
  | ready surface => exact .inr (.inr ⟨surface, rfl⟩)
  | exhausted reason => cases reason <;> simp

/-- `PublishedClasses::from_publication`. -/
def fromPublication (states : FxHashMap ClassId ClassConstructionState)
    (surfaces : FxHashMap ClassId PublishedClassSurface)
    (poison : FxHashMap ClassId PublishedClassPoison) : Option PublishedClasses :=
  let published := states.keys.filter (fun classId => states.lookup classId = some .published)
  let poisoned := states.keys.filter (fun classId => states.lookup classId = some .poisoned)
  let everyFinal := ∀ classId ∈ states.keys,
    states.lookup classId = some .published ∨ states.lookup classId = some .poisoned
  let everyPublishedHasSurface := ∀ classId ∈ published, classId ∈ surfaces
  let everyPoisonedHasCause := ∀ classId ∈ poisoned, classId ∈ poison
  let exactSurfaceSet := surfaces.keys.card = published.card ∧
    ∀ classId ∈ surfaces.keys, states.lookup classId = some .published ∧
      (surfaces.lookup classId).map (fun surface => surface.classId) = some classId
  let exactPoisonSet := poison.keys.card = poisoned.card ∧
    ∀ classId ∈ poison.keys, states.lookup classId = some .poisoned
  if everyFinal ∧ everyPublishedHasSurface ∧ everyPoisonedHasCause ∧ exactSurfaceSet
      ∧ exactPoisonSet then some ⟨states, surfaces, poison⟩
  else none

end PublishedClasses

/-! ## §2 Drafts -/

/-- `SourceOrdinal`: user modules come before library files. -/
inductive SourceOrdinal
  | user (module : Nat)
  | library (file : Nat)
  deriving DecidableEq, Repr

/-- `ClassRecoveryOrder`: the stable source order of classes. -/
structure ClassRecoveryOrder where
  source : SourceOrdinal
  bindingStart : Nat
  declarationOrdinal : Nat
  deriving DecidableEq, Repr

namespace ClassRecoveryOrder

/-- The derived order compares the fields from left to right. -/
def key (order : ClassRecoveryOrder) : Nat ×ₗ Nat ×ₗ Nat ×ₗ Nat :=
  let (kind, ordinal) := match order.source with
    | .user module => (0, module)
    | .library file => (1, file)
  toLex (kind, toLex (ordinal, toLex (order.bindingStart, order.declarationOrdinal)))

theorem key_injective : Function.Injective key := by
  rintro ⟨source, start, ordinal⟩ ⟨source', start', ordinal'⟩ h
  cases source <;> cases source' <;>
    simp only [key, EmbeddingLike.apply_eq_iff_eq, Prod.mk.injEq] at h <;>
    simp_all

instance : LinearOrder ClassRecoveryOrder := LinearOrder.lift' key key_injective

end ClassRecoveryOrder

inductive ClassTypeParameterDefault (Ticket : Type)
  | absent
  | ready (default : TypeId)
  | unsupported (owner : Ticket)
  deriving DecidableEq, Repr

structure DraftClassTypeParameter (Ticket : Type) where
  id : TypeParamId
  default : ClassTypeParameterDefault Ticket := .absent
  constraint : Option TypeId := none
  deriving DecidableEq, Repr

structure HeritageDependency (Ticket : Type) where
  target : ClassId
  identityRoot : TypeId
  owner : Ticket
  deriving DecidableEq, Repr

inductive CallableOverloadRole
  | single
  | signature (ordinal : Nat)
  | implementation (ordinal : Nat) (hiddenFromPublic : Bool)
  deriving DecidableEq, Repr

structure RetainedCallableTypeParameter (Ticket : Type) where
  id : TypeParamId
  constraint : Option TypeId
  default : ClassTypeParameterDefault Ticket
  deriving DecidableEq, Repr

/-- `RetainedClassCallable`, with the fields that publication reads. -/
structure RetainedClassCallable (Ticket : Type) where
  typeParams : List GenericTypeParam := []
  publicType : Option TypeId := none
  typeParameters : List (RetainedCallableTypeParameter Ticket) := []
  overload : CallableOverloadRole := .single
  parameterProperties : List TypeId := []
  deriving DecidableEq, Repr

namespace RetainedClassCallable

variable {Ticket : Type}

variable (callable : RetainedClassCallable Ticket)

def ownedTypeParameters : List TypeParamId :=
  callable.typeParameters.map (fun parameter => parameter.id)

/-- `binder_alignment_is_valid`. -/
def binderAlignmentIsValid : Bool :=
  callable.typeParams.length == callable.typeParameters.length
    && (callable.typeParams.zip callable.typeParameters).all (fun (core, retained) =>
      let defaultAligned := match retained.default with
        | .absent => core.default.isNone
        | .unsupported _ => core.default.isNone
        | .ready default => core.default == some default
      core.id == retained.id && core.constraint == retained.constraint && defaultAligned)

/-- `overload_metadata_is_valid`. -/
def overloadMetadataIsValid : Bool :=
  match callable.overload with
  | .single => true
  | .signature _ => true
  | .implementation _ hiddenFromPublic => hiddenFromPublic

def overloadOrdinal : Option Nat :=
  match callable.overload with
  | .single => none
  | .signature ordinal => some ordinal
  | .implementation ordinal _ => some ordinal

end RetainedClassCallable

/-- `ClassDraft`: the complete draft of one registered class declaration.  Every kind of
    poison origin is a list of owners. -/
structure ClassDraft (Ticket : Type) where
  classId : ClassId
  recoveryOrder : ClassRecoveryOrder
  typeParameters : List (DraftClassTypeParameter Ticket) := []
  instanceTemplate : TypeId
  staticTemplate : TypeId
  constructorTemplate : Option TypeId := none
  ordinaryIdentityRoots : List TypeId := []
  heritage : Option (HeritageDependency Ticket) := none
  instanceHeritage : List (HeritageDependency Ticket) := []
  initializerOrigins : List Ticket := []
  heritageSurfaceOrigins : List Ticket := []
  surfaceOrigins : List Ticket := []
  callables : List (RetainedClassCallable Ticket) := []
  deriving DecidableEq, Repr

/-- The registered drafts; a draft is filed under its own class. -/
abbrev ClassDrafts (Ticket : Type) := Std.TreeMap ClassId (ClassDraft Ticket)

/-- Reserved alias and interface templates with their children. -/
abbrev ReservedSurfaceRoots := Std.TreeMap TypeId (List TypeId)

namespace ClassDraft

variable {Ticket : Type}

def ownedTypeParameters (draft : ClassDraft Ticket) : List TypeParamId :=
  draft.typeParameters.map (fun parameter => parameter.id)
    ++ draft.callables.flatMap RetainedClassCallable.ownedTypeParameters

/-- `draft.heritage.iter().chain(&draft.instance_heritage)`. -/
def allHeritage (draft : ClassDraft Ticket) : List (HeritageDependency Ticket) :=
  draft.heritage.toList ++ draft.instanceHeritage

/-- The type a default refers to, if it is ready. -/
def readyDefault : ClassTypeParameterDefault Ticket → Option TypeId
  | .ready default => some default
  | _ => none

def callableRoots (callable : RetainedClassCallable Ticket) : List TypeId :=
  callable.publicType.toList
    ++ callable.typeParameters.filterMap (fun parameter => parameter.constraint)
    ++ callable.typeParameters.filterMap (fun parameter => readyDefault parameter.default)
    ++ callable.parameterProperties

/-- `identity_roots`: every type that the surface of the class mentions. -/
def identityRoots (draft : ClassDraft Ticket) : List TypeId :=
  [draft.instanceTemplate, draft.staticTemplate]
    ++ draft.constructorTemplate.toList
    ++ draft.ordinaryIdentityRoots
    ++ draft.typeParameters.filterMap (fun parameter => parameter.constraint)
    ++ draft.typeParameters.filterMap (fun parameter => readyDefault parameter.default)
    ++ draft.callables.flatMap callableRoots
    ++ draft.allHeritage.map (fun heritage => heritage.identityRoot)

/-- Whether the draft itself carries a reason for poison. -/
def hasOrigin (draft : ClassDraft Ticket) : Bool :=
  !draft.initializerOrigins.isEmpty || !draft.heritageSurfaceOrigins.isEmpty
    || !draft.surfaceOrigins.isEmpty

end ClassDraft

/-! ## §3 The classes that a type mentions -/

/-- The types that `walk_identity` pushes for a row. -/
def identityChildren : Row → List TypeId
  | .intrinsic _ => []
  | .literal _ => []
  | .typeParam _ => []
  | .infer _ => []
  | .mappedValue => []
  | .object object =>
    object.properties.flatMap (fun property => property.ty :: property.writeTy.toList)
      ++ object.stringIndex.toList ++ object.numberIndex.toList
      ++ object.callSignatures ++ object.constructSignatures
  | .union members => members
  | .intersection members => members
  | .function function =>
    function.typeParams.filterMap (fun param => param.constraint)
      ++ function.typeParams.filterMap (fun param => param.default)
      ++ function.receiver.toList
      ++ function.params.map (fun parameter => parameter.ty)
      ++ [function.ret]
  | .array element => [element]
  | .tuple tuple => tuple.elements ++ tuple.rest.toList.map (fun rest => rest.ty)
  | .readonly operand => [operand]
  | .conditional conditional =>
    [conditional.check, conditional.extendsTy, conditional.trueBranch, conditional.falseBranch]
  | .instantiation instantiation =>
    instantiation.base :: instantiation.args.map (fun argument => argument.2)
  | .mapped mapped => [mapped.keySource, mapped.valueTemplate] ++ mapped.modifiersSource.toList
  | .template template => template.holes
  | .keyof operand => [operand]
  | .classInstance application => application.args
  | .deferredIndexedAccess access => [access.object, access.index]
  | .declared declared => declared.mapper.map (fun entry => entry.2)

/-- The class of a class-instance row. -/
def identityClass : Row → Option ClassId
  | .classInstance application => some application.classId
  | _ => none

/-- The children of a type: those of a reserved root and those of its row. -/
def walkChildren (store : Store) (roots : ReservedSurfaceRoots) (ty : TypeId) : List TypeId :=
  roots.getD ty [] ++ ((store.row ty).map identityChildren).getD []

/-- The children of the types that were not walked yet. -/
def unwalked (store : Store) (roots : ReservedSurfaceRoots) (seen : Std.TreeSet TypeId) : Nat :=
  (((List.range store.len).filter (fun ty => ty ∉ seen)).map
    (fun ty => (walkChildren store roots ty).length)).sum

theorem unwalked_insert (store : Store) (roots : ReservedSurfaceRoots) {seen : TreeSet TypeId}
    {ty : TypeId} {row : Row} (hrow : store.row ty = some row) (hunseen : ty ∉ seen) :
    unwalked store roots (seen.insert ty) + (walkChildren store roots ty).length
      ≤ unwalked store roots seen := by
  refine DependencyGraph.sum_filter_add_le
    (fun ty : TypeId => (walkChildren store roots ty).length) _ _ ty (List.range store.len)
    (fun other hother => ?_) ?_ (by simpa using hunseen) (by simp)
  · simp only [decide_eq_true_eq, mem_insert_iff, not_or] at hother ⊢
    exact hother.2
  · rw [List.mem_range]
    by_contra hout
    rw [store.row_eq_none_of_le (Nat.le_of_not_lt hout)] at hrow
    cases hrow

/-- `walk_identity`: the classes whose instance types a type mentions.  `none` stands for the
    panic of an id that is out of range. -/
def walkIdentity (store : Store) (roots : ReservedSurfaceRoots) (stack : List TypeId)
    (seen : Std.TreeSet TypeId) (classes : Std.TreeSet ClassId) : Option (Std.TreeSet ClassId) :=
  match stack with
  | [] => some classes
  | ty :: stack =>
    if ty ∈ seen then walkIdentity store roots stack seen classes
    else
      match _hrow : store.row ty with
      | none => none
      | some row =>
        walkIdentity store roots ((walkChildren store roots ty).reverse ++ stack)
          (seen.insert ty) ((identityClass row).elim classes classes.insert)
termination_by unwalked store roots seen + stack.length
decreasing_by
  · simp
  · have hpaid := unwalked_insert store roots _hrow
      (by assumption : ty ∉ seen)
    simp
    omega

/-! ## §4 The graph -/

structure ClassEdges where
  ordinary : Std.TreeSet ClassId := ∅
  heritage : Std.TreeSet ClassId := ∅

abbrev ClassGraph := Std.TreeMap ClassId ClassEdges

/-- `ClassPublicationError`. -/
inductive ClassPublicationError
  | duplicateClass (classId : ClassId)
  | unknownClassDependency (classId target : ClassId)
  | invalidCallableBinder (classId : ClassId)
  | duplicateOwnedBinder (id : TypeParamId)
  | frozenOwnedBinder (id : TypeParamId)
  | invalidFinalRegistry
  deriving DecidableEq, Repr

section Build

variable {Ticket : Type}

/-- The classes that the identity roots of a draft mention. -/
def ordinaryTargets (store : Store) (roots : ReservedSurfaceRoots) (draft : ClassDraft Ticket) :
    Option (Std.TreeSet ClassId) :=
  draft.identityRoots.foldlM (fun classes root => walkIdentity store roots [root] ∅ classes) ∅

/-- The heritage targets of a draft. -/
def heritageTargets (draft : ClassDraft Ticket) : Std.TreeSet ClassId :=
  draft.allHeritage.foldl (fun targets heritage => targets.insert heritage.target) ∅

/-- The edges of one draft; a target that is neither registered nor inherited is an error. -/
def ClassGraph.addDraft (store : Store) (roots : ReservedSurfaceRoots) (drafts : ClassDrafts Ticket)
    (inherited : PublishedClasses) (result : Except ClassPublicationError ClassGraph)
    (row : ClassId × ClassDraft Ticket) :
    Option (Except ClassPublicationError ClassGraph) :=
  match result with
  | .error error => some (.error error)
  | .ok graph => do
    let ordinary ← ordinaryTargets store roots row.2
    let heritage := heritageTargets row.2
    match (ordinary ∪ heritage).toList.find? (fun target =>
        !drafts.contains target && inherited.isUnknown target) with
    | some target => return .error (.unknownClassDependency row.1 target)
    | none => return .ok (graph.insert row.1
        ⟨ordinary.filter drafts.contains, heritage.filter drafts.contains⟩)

/-- `ClassGraph::build`: the edges of every draft to registered classes. -/
def ClassGraph.build (store : Store) (roots : ReservedSurfaceRoots) (drafts : ClassDrafts Ticket)
    (inherited : PublishedClasses) : Option (Except ClassPublicationError ClassGraph) :=
  drafts.toList.foldlM (ClassGraph.addDraft store roots drafts inherited) (.ok ∅)

/-- The dependency map of the graph: `graph.dependencies(class)` for every class. -/
def ClassGraph.dependencyMap (graph : ClassGraph) : DependencyGraph ClassId :=
  graph.map (fun _ edges => edges.ordinary ∪ edges.heritage)

end Build

/-! ## §5 What a graph that could be built says -/

section Built

variable {Ticket : Type} {store : Store} {roots : ReservedSurfaceRoots}
  {drafts : ClassDrafts Ticket} {inherited : PublishedClasses}

theorem mem_heritageTargets {draft : ClassDraft Ticket} {target : ClassId} :
    target ∈ heritageTargets draft ↔ ∃ clause ∈ draft.allHeritage, clause.target = target := by
  unfold heritageTargets
  have hfold := (foldl_collects
    (f := fun (targets : TreeSet ClassId) (clause : HeritageDependency Ticket) =>
      targets.insert clause.target) (fun _ => True) (fun targets => target ∈ targets)
    (fun clause => clause.target = target) draft.allHeritage ∅ trivial
    (fun clause _ targets _ => ⟨trivial, by rw [mem_insert_iff, or_comm, eq_comm]⟩)).2
  rw [hfold]
  simp

/-- The edges that `ClassGraph::build` records for a draft. -/
structure DraftEdges (store : Store) (roots : ReservedSurfaceRoots) (drafts : ClassDrafts Ticket)
    (inherited : PublishedClasses) (draft : ClassDraft Ticket) (edges : ClassEdges) : Prop where
  ordinary : ∃ ordinary, ordinaryTargets store roots draft = some ordinary ∧
    (∀ target ∈ ordinary, target ∈ drafts ∨ inherited.isUnknown target = false) ∧
    ∀ target, target ∈ edges.ordinary ↔ target ∈ ordinary ∧ target ∈ drafts
  known : ∀ clause ∈ draft.allHeritage,
    clause.target ∈ drafts ∨ inherited.isUnknown clause.target = false
  heritage : ∀ target, target ∈ edges.heritage ↔
    (∃ clause ∈ draft.allHeritage, clause.target = target) ∧ target ∈ drafts

theorem ClassGraph.addDraft_ok {graph next : ClassGraph} {row : ClassId × ClassDraft Ticket}
    (h : ClassGraph.addDraft store roots drafts inherited (.ok graph) row = some (.ok next)) :
    ∃ edges, next = graph.insert row.1 edges ∧
      DraftEdges store roots drafts inherited row.2 edges := by
  simp only [ClassGraph.addDraft, bind, Option.bind_eq_some_iff] at h
  obtain ⟨ordinary, hordinary, h⟩ := h
  split at h
  · cases h
  · rename_i hfind
    have hfilter : ∀ (set : TreeSet ClassId) (target : ClassId),
        target ∈ set.filter drafts.contains ↔ target ∈ set ∧ target ∈ drafts := by
      intro set target
      rw [TreeSet.mem_filter]
      simp [TreeSet.get_eq]
    have hknown : ∀ target, target ∈ ordinary ∪ heritageTargets row.2 →
        target ∈ drafts ∨ inherited.isUnknown target = false := by
      intro target htarget
      have hnone := List.find?_eq_none.mp hfind target (TreeSet.mem_toList.mpr htarget)
      rw [Bool.and_eq_true, Bool.not_eq_true', not_and_or, Bool.not_eq_false,
        contains_iff_mem, Bool.not_eq_true] at hnone
      exact hnone
    refine ⟨_, (Except.ok.inj (Option.some.inj h)).symm, ⟨ordinary, hordinary, ?_, ?_⟩, ?_, ?_⟩
    · exact fun target htarget => hknown target (TreeSet.mem_union_iff.mpr (.inl htarget))
    · exact hfilter ordinary
    · exact fun clause hclause => hknown clause.target
        (TreeSet.mem_union_iff.mpr (.inr (mem_heritageTargets.mpr ⟨clause, hclause, rfl⟩)))
    · intro target
      rw [hfilter, mem_heritageTargets]

theorem ClassGraph.foldlM_addDraft_error (error : ClassPublicationError)
    (rows : List (ClassId × ClassDraft Ticket)) :
    rows.foldlM (ClassGraph.addDraft store roots drafts inherited) (.error error) =
      some (.error error) := by
  induction rows with
  | nil => rfl
  | cons row rows ih => exact ih

theorem ClassGraph.foldlM_addDraft_ok (rows : List (ClassId × ClassDraft Ticket))
    (hnodup : (rows.map Prod.fst).Nodup) {start graph : ClassGraph}
    (h : rows.foldlM (ClassGraph.addDraft store roots drafts inherited) (.ok start) =
      some (.ok graph)) :
    (∀ row ∈ rows, ∃ edges, graph[row.1]? = some edges ∧
      DraftEdges store roots drafts inherited row.2 edges) ∧
    ∀ classId, classId ∉ rows.map Prod.fst → graph[classId]? = start[classId]? := by
  induction rows generalizing start with
  | nil =>
    cases h
    exact ⟨by simp, fun _ _ => rfl⟩
  | cons row rows ih =>
    rw [List.map_cons, List.nodup_cons] at hnodup
    simp only [List.foldlM_cons, bind, Option.bind_eq_some_iff] at h
    obtain ⟨result, hfirst, hrest⟩ := h
    cases result with
    | error error =>
      rw [foldlM_addDraft_error] at hrest
      cases hrest
    | ok next =>
      obtain ⟨edges, rfl, hedges⟩ := addDraft_ok hfirst
      obtain ⟨hrows, hother⟩ := ih hnodup.2 hrest
      refine ⟨List.forall_mem_cons.mpr ⟨⟨edges, ?_, hedges⟩, hrows⟩, fun classId hclass => ?_⟩
      · rw [hother row.1 hnodup.1, getElem?_insert_self]
      · rw [List.map_cons, List.mem_cons, not_or] at hclass
        rw [hother classId hclass.2, getElem?_insert, if_neg]
        rw [LawfulEqCmp.compare_eq_iff_eq]
        exact fun heq => hclass.1 heq.symm

/-- **The graph of the drafts** has the registered classes as its nodes, and every class
depends on its registered heritage targets. -/
theorem ClassGraph.build_ok {graph : ClassGraph}
    (h : ClassGraph.build store roots drafts inherited = some (.ok graph)) :
    (∀ classId, classId ∈ graph ↔ classId ∈ drafts) ∧
    ∀ (classId : ClassId) (draft : ClassDraft Ticket), drafts[classId]? = some draft →
      ∃ edges, graph[classId]? = some edges ∧
        DraftEdges store roots drafts inherited draft edges := by
  have hkeys : drafts.toList.map Prod.fst = drafts.keys := map_fst_toList_eq_keys
  have hnodup : (drafts.toList.map Prod.fst).Nodup := by
    rw [hkeys]
    refine distinct_keys.imp (fun hne => ?_)
    rw [LawfulEqCmp.compare_eq_iff_eq] at hne
    exact hne
  obtain ⟨hrows, hother⟩ := foldlM_addDraft_ok drafts.toList hnodup h
  have hdrafts : ∀ (classId : ClassId) (draft : ClassDraft Ticket),
      drafts[classId]? = some draft → ∃ edges, graph[classId]? = some edges ∧
        DraftEdges store roots drafts inherited draft edges := fun classId draft hdraft =>
    hrows (classId, draft) (mem_toList_iff_getElem?_eq_some.mpr hdraft)
  refine ⟨fun classId => ?_, hdrafts⟩
  by_cases hclass : classId ∈ drafts
  · refine iff_of_true ?_ hclass
    have hdraft := hclass
    rw [mem_iff_isSome_getElem?, Option.isSome_iff_exists] at hdraft
    obtain ⟨draft, hdraft⟩ := hdraft
    obtain ⟨edges, hget, _⟩ := hdrafts classId draft hdraft
    rw [mem_iff_isSome_getElem?, hget]
    rfl
  · refine iff_of_false ?_ hclass
    have hget := hother classId (by rwa [hkeys, mem_keys])
    rw [mem_iff_isSome_getElem?, hget]
    simp

theorem ClassGraph.edge_dependencyMap {graph : ClassGraph} {classId target : ClassId} :
    graph.dependencyMap.Edge classId target ↔
      ∃ edges, graph[classId]? = some edges ∧
        (target ∈ edges.ordinary ∨ target ∈ edges.heritage) := by
  rw [DependencyGraph.Edge, DependencyGraph.mem_targets, ClassGraph.dependencyMap, getElem?_map]
  cases graph[classId]? with
  | none => simp
  | some edges => simp [TreeSet.mem_union_iff]

/-- The nodes of the dependency map are the registered classes. -/
theorem ClassGraph.isNode_dependencyMap {graph : ClassGraph}
    (h : ClassGraph.build store roots drafts inherited = some (.ok graph)) (classId : ClassId) :
    graph.dependencyMap.IsNode classId ↔ classId ∈ drafts := by
  obtain ⟨hkeys, hdrafts⟩ := build_ok h
  have hmem : classId ∈ graph.dependencyMap ↔ classId ∈ drafts := by
    rw [← hkeys, ClassGraph.dependencyMap, mem_map]
  refine ⟨?_, fun hclass => .inl (hmem.mpr hclass)⟩
  rintro (hin | ⟨source, hedge⟩)
  · exact hmem.mp hin
  · obtain ⟨edges, hget, hmember⟩ := edge_dependencyMap.mp hedge
    have hsource : source ∈ drafts := by
      rw [← hkeys, mem_iff_isSome_getElem?, hget]
      rfl
    rw [mem_iff_isSome_getElem?, Option.isSome_iff_exists] at hsource
    obtain ⟨draft, hdraft⟩ := hsource
    obtain ⟨other, hget', hedges⟩ := hdrafts source draft hdraft
    cases hget.symm.trans hget'
    obtain ⟨_, _, _, hordinary⟩ := hedges.ordinary
    rcases hmember with hmember | hmember
    · exact ((hordinary classId).mp hmember).2
    · exact ((hedges.heritage classId).mp hmember).2

end Built

end Typokat.Check
