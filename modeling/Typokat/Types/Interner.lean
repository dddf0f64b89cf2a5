import Typokat.Types.Hash
import Typokat.Types.Arena

/-!
# Interner State (`typokat-types/src/types/intern/mod.rs`)

The arena together with its dedup index, reservations and derived caches.  The
occurrence-provenance store and the deferred-`keyof` results are not read by any
modelled operation and are left out.
-/

namespace Typokat.Types

/-! ## §1 Derived caches -/

/-- Whether a root can preserve mapper entries beyond its free set. -/
inductive ApplicationKeyMode
  | relevantOnly | fullMap
  deriving DecidableEq, Repr

/-- The key of a completed root substitution; `arguments` are sorted by parameter. -/
structure CleanApplicationKey where
  source : TypeId
  mode : ApplicationKeyMode
  arguments : List (TypeParamId × TypeId)
  deriving DecidableEq, Repr

/-- `CleanApplicationKey::from_sorted_arguments`. -/
def CleanApplicationKey.fromSortedArguments (source : TypeId) (mode : ApplicationKeyMode)
    (arguments : List (TypeParamId × TypeId)) : Option CleanApplicationKey :=
  if arguments.isEmpty then none else some ⟨source, mode, arguments⟩

/-- Results derived from the type graph with the given identity. -/
structure DerivedGraphCache (K V : Type) where
  graphIdentity : Nat
  base : FxHashMap K V
  suffix : FxHashMap K V

namespace DerivedGraphCache

variable {K V : Type} [DecidableEq K]

def new (graphIdentity : Nat) : DerivedGraphCache K V := ⟨graphIdentity, ∅, ∅⟩

variable (cache : DerivedGraphCache K V)

/-- Drop the suffix when the graph changed; the base only speaks of sealed rows. -/
def alignWith (graphIdentity : Nat) : DerivedGraphCache K V :=
  if cache.graphIdentity = graphIdentity then cache
  else { cache with graphIdentity, suffix := ∅ }

def get (key : K) : Option V :=
  (cache.suffix.lookup key).or (cache.base.lookup key)

def insert (cache : DerivedGraphCache K V) (key : K) (value : V) : DerivedGraphCache K V :=
  if key ∈ cache.base ∨ key ∈ cache.suffix then cache
  else { cache with suffix := cache.suffix.insert key value }

def insertBatch (entries : List (K × V)) :
    DerivedGraphCache K V :=
  entries.foldl (fun cache entry => cache.insert entry.1 entry.2) cache

def freezeAsBase : DerivedGraphCache K V :=
  { cache with base := cache.suffix ∪ cache.base, suffix := ∅ }

def forkDelta (graphIdentity : Nat) : DerivedGraphCache K V :=
  ⟨graphIdentity, cache.base, ∅⟩

end DerivedGraphCache

/-- Free-parameter summaries; unlike a `DerivedGraphCache` they give up their base too when
    the graph changes. -/
structure FreeParamSummaryCache where
  graphIdentity : Nat
  base : FxHashMap TypeId (List TypeParamId)
  suffix : FxHashMap TypeId (List TypeParamId)

namespace FreeParamSummaryCache

def new (graphIdentity : Nat) : FreeParamSummaryCache := ⟨graphIdentity, ∅, ∅⟩

variable (cache : FreeParamSummaryCache)

def alignWith (graphIdentity : Nat) : FreeParamSummaryCache :=
  if cache.graphIdentity = graphIdentity then cache else ⟨graphIdentity, ∅, ∅⟩

def get (ty : TypeId) : Option (List TypeParamId) :=
  (cache.suffix.lookup ty).or (cache.base.lookup ty)

def insert (cache : FreeParamSummaryCache) (ty : TypeId) (summary : List TypeParamId) :
    FreeParamSummaryCache :=
  if ty ∈ cache.base ∨ ty ∈ cache.suffix then cache
  else { cache with suffix := cache.suffix.insert ty summary }

def insertBatch (summaries : List (TypeId × List TypeParamId)) : FreeParamSummaryCache :=
  summaries.foldl (fun cache entry => cache.insert entry.1 entry.2) cache

def freezeAsBase : FreeParamSummaryCache :=
  { cache with base := cache.suffix ∪ cache.base, suffix := ∅ }

def forkDelta (graphIdentity : Nat) : FreeParamSummaryCache :=
  ⟨graphIdentity, cache.base, ∅⟩

end FreeParamSummaryCache

/-! ## §2 Reservations -/

inductive ReservedTypeKind
  | object | conditional | mapped
  deriving DecidableEq, Repr

inductive ReservedTypeState
  | pending | frozen
  deriving DecidableEq, Repr

structure ReservedType where
  kind : ReservedTypeKind
  state : ReservedTypeState
  deriving DecidableEq, Repr

/-- One body of a publication batch. -/
inductive ReservedTypeFill
  | object (id : TypeId) (object : ObjectType)
  | conditional (id : TypeId) (conditional : ConditionalType)
  | mapped (id : TypeId) (mapped : MappedType)
  deriving DecidableEq, Repr

def ReservedTypeFill.target : ReservedTypeFill → TypeId
  | .object id _ => id
  | .conditional id _ => id
  | .mapped id _ => id

def ReservedTypeFill.kind : ReservedTypeFill → ReservedTypeKind
  | .object _ _ => .object
  | .conditional _ _ => .conditional
  | .mapped _ _ => .mapped

inductive ReservedTypeFillError
  | duplicate (id : TypeId)
  | notReserved (id : TypeId)
  | kindMismatch (id : TypeId) (reserved supplied : ReservedTypeKind)
  | alreadyFrozen (id : TypeId)
  | invalidBackingRow (id : TypeId)
  deriving DecidableEq, Repr

inductive ReservedObjectPromotionError
  | notReserved (id : TypeId)
  | kindMismatch (id : TypeId)
  | notFrozen (id : TypeId)
  | invalidBackingRow (id : TypeId)
  deriving DecidableEq, Repr

/-! ## §3 Well-known ids -/

/-- Well-known intrinsic type ids. -/
structure WellKnown where
  error : TypeId
  any : TypeId
  unknown : TypeId
  never : TypeId
  void : TypeId
  null : TypeId
  undefined : TypeId
  boolean : TypeId
  number : TypeId
  string : TypeId
  uppercase : TypeId
  lowercase : TypeId
  capitalize : TypeId
  uncapitalize : TypeId
  thisType : TypeId
  omitThisParameter : TypeId
  object : TypeId
  bigint : TypeId
  symbol : TypeId
  deriving DecidableEq, Repr

/-- Whether `id` is one of the four string-intrinsic markers. -/
def WellKnown.isStringIntrinsicMarker (wk : WellKnown) (id : TypeId) : Bool :=
  id == wk.uppercase || id == wk.lowercase || id == wk.capitalize || id == wk.uncapitalize

/-- The well-known table that assigns each kind its id. -/
def WellKnown.ofKinds (idOf : IntrinsicKind → TypeId) : WellKnown where
  error := idOf .error
  any := idOf .any
  unknown := idOf .unknown
  never := idOf .never
  void := idOf .void
  null := idOf .null
  undefined := idOf .undefined
  boolean := idOf .boolean
  number := idOf .number
  string := idOf .string
  uppercase := idOf .uppercase
  lowercase := idOf .lowercase
  capitalize := idOf .capitalize
  uncapitalize := idOf .uncapitalize
  thisType := idOf .thisType
  omitThisParameter := idOf .omitThisParameter
  object := idOf .object
  bigint := idOf .bigInt
  symbol := idOf .symbol

/-! ## §4 The interner -/

structure Interner where
  store : Store
  freeParamSummaries : FreeParamSummaryCache
  applicationKeyModes : DerivedGraphCache TypeId ApplicationKeyMode
  cleanApplicationResults : DerivedGraphCache CleanApplicationKey TypeId
  dedupBase : FxHashMap Nat (List TypeId)
  dedup : FxHashMap Nat (List TypeId)
  declaredRecipeBase : FxHashMap DeclaredTypeRecipe DeclaredRecipeId
  declaredRecipeLocal : FxHashMap DeclaredTypeRecipe DeclaredRecipeId
  reservedTypesBase : FxHashMap TypeId ReservedType
  reservedTypes : FxHashMap TypeId ReservedType
  wellKnown : WellKnown

namespace Interner

/-- An interner over an empty store, before the intrinsics are interned. -/
def empty : Interner where
  store := Store.new
  freeParamSummaries := FreeParamSummaryCache.new Store.new.semanticGraphIdentity
  applicationKeyModes := DerivedGraphCache.new Store.new.semanticGraphIdentity
  cleanApplicationResults := DerivedGraphCache.new Store.new.semanticGraphIdentity
  dedupBase := ∅
  dedup := ∅
  declaredRecipeBase := ∅
  declaredRecipeLocal := ∅
  reservedTypesBase := ∅
  reservedTypes := ∅
  wellKnown := WellKnown.ofKinds (fun _ => 0)

variable (interner : Interner)

/-- The reservation of an id, sealed or local. -/
def reservedType (id : TypeId) : Option ReservedType :=
  (interner.reservedTypesBase.lookup id).or (interner.reservedTypes.lookup id)

/-- The candidates of a dedup bucket in lookup order. -/
def bucket (hash : Nat) : List TypeId :=
  (interner.dedupBase.lookup hash).getD [] ++ (interner.dedup.lookup hash).getD []

/-- The first candidate of the bucket that `eq` confirms. -/
def lookup (hash : Nat) (eq : Store → TypeId → Bool) : Option TypeId :=
  (interner.bucket hash).find? (eq interner.store)

/-- `self.dedup.entry(hash).or_default().push(id)`. -/
def pushCandidate (hash : Nat) (id : TypeId) : Interner :=
  { interner with
    dedup := interner.dedup.insert hash ((interner.dedup.lookup hash).getD [] ++ [id]) }

/-! ### Cache access -/

def freeParamSummary (ty : TypeId) : Option (List TypeParamId) × Interner :=
  let cache := interner.freeParamSummaries.alignWith interner.store.semanticGraphIdentity
  (cache.get ty, { interner with freeParamSummaries := cache })

def publishFreeParamSummaries (summaries : List (TypeId × List TypeParamId)) : Interner :=
  let cache := interner.freeParamSummaries.alignWith interner.store.semanticGraphIdentity
  { interner with freeParamSummaries := cache.insertBatch summaries }

def applicationKeyMode (ty : TypeId) :
    Option ApplicationKeyMode × Interner :=
  let cache := interner.applicationKeyModes.alignWith interner.store.semanticGraphIdentity
  (cache.get ty, { interner with applicationKeyModes := cache })

def publishApplicationKeyModes (modes : List (TypeId × ApplicationKeyMode)) : Interner :=
  let cache := interner.applicationKeyModes.alignWith interner.store.semanticGraphIdentity
  { interner with applicationKeyModes := cache.insertBatch modes }

def cleanApplicationResult (key : CleanApplicationKey) :
    Option TypeId × Interner :=
  let cache := interner.cleanApplicationResults.alignWith interner.store.semanticGraphIdentity
  (cache.get key, { interner with cleanApplicationResults := cache })

def publishCleanApplicationResult (key : CleanApplicationKey) (result : TypeId) : Interner :=
  let cache := interner.cleanApplicationResults.alignWith interner.store.semanticGraphIdentity
  { interner with cleanApplicationResults := cache.insert key result }

end Interner

end Typokat.Types
