import Typokat.Check.ClassOrder
import Typokat.Types.Substitute

/-!
# Class Publication (`checker/classes/construction.rs`)

`finish_with_inherited` works through the dependency components of the registered classes.
A component is poisoned as a whole by an extends cycle or by a poisoned base below it; a
class of its own by one of its origins.  Every other class is published: its templates are
merged over those of its heritage, and its binders are frozen at the very end.
-/

namespace Typokat.Check

open Types

/-- A computation over the interner that may report an error; the interner keeps what was
    interned before the error.  `none` stands for a panic or for missing fuel. -/
abbrev Publishing (A : Type) := ExceptT ClassPublicationError (StateT Interner Option) A

/-- The result on an interner and the interner afterwards. -/
def Publishing.outcome {A : Type} (x : Publishing A) (interner : Interner) :
    Option (Except ClassPublicationError A × Interner) :=
  (ExceptT.run x).run interner

/-- Run a computation that does not touch the interner. -/
def Publishing.lift {A : Type} (x : Fallible A) : Publishing A :=
  ExceptT.mk (fun interner => x.run.map (fun result => (result, interner)))

/-- Run a computation on the interner that reports no error. -/
def Publishing.onInterner {A : Type} (f : Interner → Option (A × Interner)) : Publishing A :=
  ExceptT.mk (fun interner => (f interner).map (fun result => (.ok result.1, result.2)))

section Outcome

variable {A B S : Type}

@[simp] theorem Publishing.outcome_pure (a : A) (interner : Interner) :
    (pure a : Publishing A).outcome interner = some (.ok a, interner) := rfl

@[simp] theorem Publishing.outcome_throw (error : ClassPublicationError) (interner : Interner) :
    (throw error : Publishing A).outcome interner = some (.error error, interner) := rfl

@[simp] theorem Publishing.outcome_get (interner : Interner) :
    (get : Publishing Interner).outcome interner = some (.ok interner, interner) := rfl

theorem Publishing.outcome_lift (x : Fallible A) (interner : Interner) :
    (Publishing.lift x).outcome interner = x.run.map (fun result => (result, interner)) := rfl

@[simp] theorem Publishing.lift_pure (a : A) : Publishing.lift (pure a) = pure a := rfl

/-- A sequence succeeds iff both parts do. -/
theorem Publishing.outcome_bind_ok {x : Publishing A} {f : A → Publishing B} {b : B}
    {interner final : Interner} :
    (x >>= f).outcome interner = some (.ok b, final) ↔
      ∃ a next, x.outcome interner = some (.ok a, next) ∧
        (f a).outcome next = some (.ok b, final) := by
  have hbind : (x >>= f).outcome interner = (x.outcome interner).bind (fun result =>
      match result.1 with
      | .ok a => (f a).outcome result.2
      | .error error => some (.error error, result.2)) := by
    change (x interner).bind _ = (x interner).bind _
    refine congrArg _ (funext fun result => ?_)
    rcases result with ⟨result, next⟩
    cases result <;> rfl
  rw [hbind]
  cases hx : x.outcome interner with
  | none => simp
  | some result =>
    rcases result with ⟨result, next⟩
    cases result <;> simp

/-- A loop that succeeds keeps an invariant that each of its steps keeps. -/
theorem Publishing.foldlM_ok {f : S → A → Publishing S} (inv : List A → S → Prop)
    {entries : List A} {state final : S} {interner last : Interner}
    (hok : (entries.foldlM f state).outcome interner = some (.ok final, last))
    (done : List A) (hstart : inv done state)
    (hstep : ∀ front entry back state next interner interner', entries = front ++ entry :: back →
      inv (done ++ front) state → (f state entry).outcome interner = some (.ok next, interner') →
      inv (done ++ front ++ [entry]) next) : inv (done ++ entries) final := by
  induction entries generalizing state interner done with
  | nil =>
    rw [List.foldlM_nil, Publishing.outcome_pure] at hok
    cases hok
    rwa [List.append_nil]
  | cons entry entries ih =>
    rw [List.foldlM_cons, Publishing.outcome_bind_ok] at hok
    obtain ⟨next, interner', hfirst, hok⟩ := hok
    have hnext : inv (done ++ [entry]) next := by
      simpa using hstep [] entry entries state next interner interner' rfl (by simpa using hstart)
        hfirst
    have hrest := ih hok (done ++ [entry]) hnext
      (fun front other back state next first second hsplit hinv hf => by
      have hstep' := hstep (entry :: front) other back state next first second
        (by rw [hsplit]; rfl) (by simpa using hinv) hf
      simpa using hstep')
    simpa using hrest

end Outcome

inductive PendingSurfaceObligation (Ticket : Type)
  | initializerOrigin (classId : ClassId) (owner : Ticket)
  | surfaceOrigin (classId : ClassId) (owner : Ticket)
  | heritageCycle (derived base : ClassId) (owner : Ticket)
  | poisonedBase (derived base : ClassId) (owner : Ticket)
  | deferred (classId : ClassId) (owner : Ticket)
  deriving DecidableEq, Repr

/-- The registries of the loop over the components. -/
structure PublicationState (Ticket : Type) where
  states : FxHashMap ClassId ClassConstructionState := ∅
  surfaces : FxHashMap ClassId PublishedClassSurface := ∅
  poison : FxHashMap ClassId PublishedClassPoison := ∅
  obligations : List (PendingSurfaceObligation Ticket) := []
  heritageConstructors : Std.TreeMap ClassId TypeId := ∅

/-- `ClassPublication`. -/
structure ClassPublication (Ticket : Type) where
  published : PublishedClasses
  obligations : List (PendingSurfaceObligation Ticket)
  typeParameters : Std.TreeMap ClassId (List (DraftClassTypeParameter Ticket))
  retainedCallables : Std.TreeMap ClassId (List (RetainedClassCallable Ticket))
  heritageConstructors : Std.TreeMap ClassId TypeId

variable (structuralHash : StructuralKey → Nat) (fuel : Nat)

/-! ## §1 Merging templates -/

/-- Put an own property over the inherited one of the same key, or after all of them. -/
def mergeProperty : List PropertyType → PropertyType → List PropertyType
  | [], property => [property]
  | inherited :: rest, property =>
    if inherited.key = property.key then property :: rest
    else inherited :: mergeProperty rest property

/-- The members of an own object over those of its base. -/
def mergeObjects (base own : ObjectType) : ObjectType where
  properties := own.properties.foldl mergeProperty base.properties
  stringIndex := own.stringIndex.or base.stringIndex
  numberIndex := own.numberIndex.or base.numberIndex
  callSignatures := base.callSignatures ++ own.callSignatures
  -- an own constructor replaces inherited construct signatures
  constructSignatures :=
    if own.constructSignatures.isEmpty then base.constructSignatures else own.constructSignatures

/-- `merge_heritage_instance`. -/
def mergeHeritageInstance (base own : TypeId) : Publishing TypeId := do
  let interner ← get
  match interner.store.objectType base, interner.store.objectType own with
  | some base, some own =>
    Publishing.onInterner (fun interner =>
      some (interner.internObject structuralHash (mergeObjects base own)))
  | _, _ => throw .invalidFinalRegistry

/-! ## §2 One class -/

section Publish

variable {Ticket : Type} (inherited : PublishedClasses)

/-- The surface of a heritage target: one of this publication, else an inherited one. -/
def baseSurface (state : PublicationState Ticket) (target : ClassId) :
    Option PublishedClassSurface :=
  (state.surfaces.lookup target).or (inherited.surface target)

/-- The parameters of the base with the arguments of the heritage clause. -/
def heritageSubstitutions (base : PublishedClassSurface) (identityRoot : TypeId) :
    Publishing (FxHashMap TypeParamId TypeId) := do
  let interner ← get
  match interner.store.classInstanceType identityRoot with
  | none => throw .invalidFinalRegistry
  | some application =>
    -- a later pair of the zip replaces an earlier one of the same parameter
    return (base.typeParams.zip application.args).foldl
      (fun map entry => map.insert entry.1 entry.2) ∅

def substituteIn (ty : TypeId) (map : FxHashMap TypeParamId TypeId) : Publishing TypeId :=
  Publishing.onInterner (fun interner => substitute structuralHash fuel interner ty map)

/-- The templates of a class over those of its extends base. -/
def composeExtends (component : List ClassId) (state : PublicationState Ticket)
    (draft : ClassDraft Ticket) : Publishing (TypeId × TypeId × Option TypeId) :=
  match draft.heritage with
  | none => return (draft.instanceTemplate, draft.staticTemplate, none)
  | some heritage =>
    match baseSurface inherited state heritage.target with
    | some base => do
      let substitutions ← heritageSubstitutions base heritage.identityRoot
      let baseInstance ←
        substituteIn structuralHash fuel base.instanceTemplate substitutions
      let instanceTemplate ←
        mergeHeritageInstance structuralHash baseInstance draft.instanceTemplate
      let baseStatic ← substituteIn structuralHash fuel base.staticTemplate substitutions
      let staticTemplate ← mergeHeritageInstance structuralHash baseStatic draft.staticTemplate
      match base.constructorTemplate with
      | some constructor => do
        let constructor ← substituteIn structuralHash fuel constructor substitutions
        return (instanceTemplate, staticTemplate, some constructor)
      | none => return (instanceTemplate, staticTemplate, none)
    | none =>
      if heritage.target ∈ component then
        return (draft.instanceTemplate, draft.staticTemplate, none)
      else throw .invalidFinalRegistry

/-- One instance-heritage clause: only the instance side is merged. -/
def composeInstance (component : List ClassId) (state : PublicationState Ticket)
    (instanceTemplate : TypeId) (heritage : HeritageDependency Ticket) : Publishing TypeId :=
  match baseSurface inherited state heritage.target with
  | some base => do
    let substitutions ← heritageSubstitutions base heritage.identityRoot
    let baseInstance ← substituteIn structuralHash fuel base.instanceTemplate substitutions
    mergeHeritageInstance structuralHash baseInstance instanceTemplate
  | none =>
    -- a forward edge of a cycle is cut
    if heritage.target ∈ component then return instanceTemplate
    else throw .invalidFinalRegistry

/-- The constructor of a class that has neither its own nor an inherited one. -/
def defaultConstructor : Publishing TypeId :=
  Publishing.onInterner (fun interner =>
    some (interner.internFunction structuralHash { ret := interner.wellKnown.void }))

/-- The surface of a class that nothing poisons. -/
def composeSurface (component : List ClassId) (state : PublicationState Ticket) (classId : ClassId)
    (draft : ClassDraft Ticket) :
    Publishing (PublishedClassSurface × Option TypeId) := do
  let (instanceTemplate, staticTemplate, inheritedConstructor) ←
    composeExtends structuralHash fuel inherited component state draft
  let instanceTemplate ← draft.instanceHeritage.foldlM
    (composeInstance structuralHash fuel inherited component state) instanceTemplate
  let constructorTemplate ←
    match draft.constructorTemplate.or inheritedConstructor with
    | some constructor => pure constructor
    | none => defaultConstructor structuralHash
  return (⟨classId, draft.typeParameters.map (fun parameter => parameter.id), instanceTemplate,
    staticTemplate, some constructorTemplate⟩, inheritedConstructor)

/-- The obligations of the poison origins of a class. -/
def originObligations (classId : ClassId) (draft : ClassDraft Ticket) :
    List (PendingSurfaceObligation Ticket) :=
  draft.initializerOrigins.map (PendingSurfaceObligation.initializerOrigin classId)
    ++ draft.heritageSurfaceOrigins.map (PendingSurfaceObligation.deferred classId)
    ++ draft.surfaceOrigins.map (PendingSurfaceObligation.surfaceOrigin classId)

/-- The cause that poisons a class of a component. -/
def poisonCause (componentPoisoned : Bool) (draft : ClassDraft Ticket) :
    Option PublishedClassPoison :=
  if componentPoisoned || !draft.heritageSurfaceOrigins.isEmpty then some .heritage
  else if !draft.initializerOrigins.isEmpty then some .initializer
  else if !draft.surfaceOrigins.isEmpty then some .surface
  else none

variable (drafts : ClassDrafts Ticket)

/-- One class of the construction order. -/
def publishClass (component : List ClassId) (componentPoisoned : Bool)
    (state : PublicationState Ticket) (classId : ClassId) :
    Publishing (PublicationState Ticket) := do
  let draft ← Publishing.lift (draftOf drafts classId)
  let obligations := state.obligations ++ originObligations classId draft
  match poisonCause componentPoisoned draft with
  | some cause =>
    return { state with
      states := state.states.insert classId .poisoned
      poison := state.poison.insert classId cause
      obligations }
  | none =>
    let (surface, inheritedConstructor) ←
      composeSurface structuralHash fuel inherited component state classId draft
    return { state with
      states := state.states.insert classId .published
      surfaces := state.surfaces.insert classId surface
      heritageConstructors := inheritedConstructor.elim state.heritageConstructors
        (state.heritageConstructors.insert classId)
      obligations }

/-! ## §3 One component -/

/-- The extends edges inside a component that is not recoverable. -/
def cycleObligations (component : List ClassId) (recoverable : Bool) (order : List ClassId) :
    Fallible (List (PendingSurfaceObligation Ticket)) := do
  let found ← order.mapM (fun classId => do
    let draft ← draftOf drafts classId
    return draft.heritage.toList.filterMap (fun heritage =>
      if heritage.target ∈ component ∧ recoverable = false then
        some (PendingSurfaceObligation.heritageCycle classId heritage.target heritage.owner)
      else none))
  return found.flatten

/-- The heritage edges to a base that is poisoned already. -/
def poisonedBaseObligations (state : PublicationState Ticket) (classes : List ClassId) :
    Fallible (List (PendingSurfaceObligation Ticket)) := do
  let found ← classes.mapM (fun classId => do
    let draft ← draftOf drafts classId
    return draft.allHeritage.filterMap (fun heritage =>
      if state.states.lookup heritage.target = some .poisoned
          ∨ inherited.isPoisoned heritage.target = true then
        some (PendingSurfaceObligation.poisonedBase classId heritage.target heritage.owner)
      else none))
  return found.flatten

/-- One component of the dependency order. -/
def publishComponent (state : PublicationState Ticket) (classes : List ClassId) :
    Publishing (PublicationState Ticket) := do
  let order ← Publishing.lift (heritageConstructionOrder classes drafts)
  let recoverable ← Publishing.lift (hasRecoverableMixedHeritageCycle classes drafts)
  let cycles ← Publishing.lift (cycleObligations drafts classes recoverable order)
  -- bases are only looked at in a component without an extends cycle
  let bases ←
    if cycles.isEmpty then Publishing.lift (poisonedBaseObligations inherited drafts state classes)
    else pure []
  let state := { state with obligations := state.obligations ++ cycles ++ bases }
  order.foldlM (publishClass structuralHash fuel inherited drafts classes
    (!cycles.isEmpty || !bases.isEmpty)) state

/-! ## §4 The whole publication -/

/-- Whether the overload ordinals of the callables are not ascending or a callable is invalid. -/
def hasInvalidCallable : Option Nat → List (RetainedClassCallable Ticket) → Bool
  | _, [] => false
  | previous, callable :: callables =>
    if !callable.binderAlignmentIsValid || !callable.overloadMetadataIsValid then true
    else
      match callable.overloadOrdinal with
      | none => hasInvalidCallable previous callables
      | some ordinal =>
        previous.any (fun previous => decide (previous ≥ ordinal))
          || hasInvalidCallable (some ordinal) callables

/-- The first draft whose callables are invalid. -/
def invalidCallable : Option ClassId :=
  (drafts.values.find? (fun draft => hasInvalidCallable none draft.callables)).map
    (fun draft => draft.classId)

/-- The binders that the drafts own, in the order of the classes. -/
def ownedBinders : List TypeParamId :=
  drafts.values.flatMap ClassDraft.ownedTypeParameters

/-- The checks of the owned binders. -/
def checkBinders (binders : List TypeParamId) : Publishing Unit := do
  let interner ← get
  match Store.firstDuplicate ∅ binders with
  | some id => throw (.duplicateOwnedBinder id)
  | none =>
    match binders.find? interner.store.frozenTypeParams.contains with
    | some id => throw (.frozenOwnedBinder id)
    | none => return ()

/-- The only durable mutation: freeze the binders. -/
def freezeBinders (binders : List TypeParamId) : Publishing Unit := do
  let interner ← get
  let (result, interner) := interner.freezeTypeParamMetadata binders
  set interner
  match result with
  | .ok () => return ()
  | .error (.duplicate id) => throw (.duplicateOwnedBinder id)
  | .error (.alreadyFrozen id) => throw (.frozenOwnedBinder id)

/-- The loop over the components of the dependency graph. -/
def publishComponents (roots : ReservedSurfaceRoots) (drafts : ClassDrafts Ticket) :
    Publishing (PublicationState Ticket) := do
  let interner ← get
  let graph ← Publishing.lift (ExceptT.mk (ClassGraph.build interner.store roots drafts inherited))
  (dependencyFirstSccs graph.dependencyMap).foldlM
    (publishComponent structuralHash fuel inherited drafts) {}

/-- `finish_with_inherited`. -/
def finishWithInherited (roots : ReservedSurfaceRoots) (drafts : ClassDrafts Ticket) :
    Publishing (ClassPublication Ticket) := do
  match invalidCallable drafts with
  | some classId => throw (.invalidCallableBinder classId)
  | none =>
    let state ← publishComponents structuralHash fuel inherited roots drafts
    let binders := ownedBinders drafts
    checkBinders binders
    match PublishedClasses.fromPublication state.states state.surfaces state.poison with
    | none => throw .invalidFinalRegistry
    | some published =>
      freezeBinders binders
      return {
        published
        obligations := state.obligations
        typeParameters := drafts.map (fun _ draft => draft.typeParameters)
        retainedCallables := drafts.map (fun _ draft => draft.callables)
        heritageConstructors := state.heritageConstructors }

end Publish

end Typokat.Check
