import Mathlib.Data.Prod.Lex
import Mathlib.Data.String.Basic
import Mathlib.Data.Sum.Order

/-!
# Replay Owners and Tables (`checker/replay_index.rs`)

The semantic publication domains of a library, the sites and edges that are recorded for
them, and the two tables made of these rows: the index, and the compact plan.

Ids are `u32` and row numbers are `usize`; both are kept as the fixed-width types of a
64-bit target.
-/

namespace Typokat.Replay

/-! ## §1 Owners -/

abbrev TypeGroupId := UInt32
abbrev ValueStorageId := UInt32
abbrev NamespaceId := UInt32
abbrev ClassId := UInt32

/-- `LibraryEventKey`. -/
structure LibraryEventKey where
  fileOrdinal : UInt64
  sourceStart : UInt32
  eventOrdinal : UInt64
  recordOrdinal : UInt64
  deriving DecidableEq, Repr

/-- `ReplayOwner`: the stable semantic publication domains. -/
inductive ReplayOwner
  | typeGroup (id : TypeGroupId)
  | value (id : ValueStorageId)
  | namespace (id : NamespaceId)
  | class (id : ClassId)
  | globalObject
  | statement (key : LibraryEventKey)
  deriving Repr

namespace ReplayOwner

/-- `ReplayOwner::tag`; the order of the tags is part of the wire contract. -/
def tag : ReplayOwner → UInt8
  | .typeGroup _ => 0
  | .value _ => 1
  | .namespace _ => 2
  | .class _ => 3
  | .globalObject => 4
  | .statement _ => 5

/-- The payload that `cmp` compares behind the tag. -/
def payload : ReplayOwner → Nat ×ₗ Nat ×ₗ Nat ×ₗ Nat
  | .typeGroup id => toLex (id.toNat, toLex (0, toLex (0, 0)))
  | .value id => toLex (id.toNat, toLex (0, toLex (0, 0)))
  | .namespace id => toLex (id.toNat, toLex (0, toLex (0, 0)))
  | .class id => toLex (id.toNat, toLex (0, toLex (0, 0)))
  | .globalObject => toLex (0, toLex (0, toLex (0, 0)))
  | .statement key => toLex (key.fileOrdinal.toNat, toLex (key.sourceStart.toNat,
      toLex (key.eventOrdinal.toNat, key.recordOrdinal.toNat)))

/-- What `cmp` compares. -/
def sortKey (owner : ReplayOwner) : Nat ×ₗ Nat ×ₗ Nat ×ₗ Nat ×ₗ Nat :=
  toLex (owner.tag.toNat, owner.payload)

theorem sortKey_injective : Function.Injective sortKey := by
  intro first second h
  obtain ⟨htag, hpayload⟩ := Prod.mk.inj (toLex.injective h)
  rw [UInt8.toNat_inj] at htag
  -- owners with different tags differ; with equal tags the payloads are compared
  cases first <;> cases second <;> first
    | (simp [tag] at htag; done)
    | simp only [payload, EmbeddingLike.apply_eq_iff_eq, Prod.mk.injEq, UInt32.toNat_inj,
        UInt64.toNat_inj, and_true] at hpayload
  case typeGroup.typeGroup => rw [hpayload]
  case value.value => rw [hpayload]
  case «namespace».«namespace» => rw [hpayload]
  case «class».«class» => rw [hpayload]
  case globalObject.globalObject => rfl
  case statement.statement first second =>
    cases first
    cases second
    simp only at hpayload
    obtain ⟨rfl, rfl, rfl, rfl⟩ := hpayload
    rfl

instance : LinearOrder ReplayOwner := LinearOrder.lift' sortKey sortKey_injective

instance : LawfulBEq ReplayOwner := inferInstance

end ReplayOwner

/-! ## §2 Rows -/

structure Span where
  start : UInt32
  stop : UInt32
  deriving DecidableEq, Repr

structure ReplayOwnerSite where
  owner : ReplayOwner
  fileOrdinal : UInt64
  span : Span
  deriving DecidableEq, Repr

inductive DeclarationKind
  | variable | function | «class» | parameter | catchParameter | import | typeAlias | interface
  | enum | namespace | importEquals | namespaceExport | global | defaultExportExpression
  deriving DecidableEq, Repr

inductive DeclarationOwner
  | lexical (scope : UInt32)
  | namespacePublic (id : NamespaceId)
  | namespacePrivate (fragment : UInt32)
  | compilationGlobal
  | deferredAmbientModule (module : UInt32)
  deriving DecidableEq, Repr

inductive CollisionReplayEventPhase
  | immediate | deferred | incomplete | body
  deriving DecidableEq, Repr

inductive SourceGlobalContributorKind
  | ordinary | namespace
  deriving DecidableEq, Repr

inductive CollisionReplaySiteProvenance
  | declaration (declaration : UInt32) (kind : DeclarationKind) (binderOwner : DeclarationOwner)
    (containingNamespace : Option NamespaceId)
  | event (phase : CollisionReplayEventPhase)
  | globalContributor (name : String) (kind : SourceGlobalContributorKind)
    (binderOwner : DeclarationOwner)
  | explicitGlobalThis (binderOwner : DeclarationOwner)
  deriving DecidableEq, Repr

structure CollisionReplayOwnerSite where
  owner : ReplayOwner
  fileOrdinal : UInt64
  span : Span
  provenance : CollisionReplaySiteProvenance
  deriving DecidableEq, Repr

structure ReplayRootSlot where
  name : String
  value : Option ValueStorageId := none
  ty : Option TypeGroupId := none
  namespaceId : Option NamespaceId := none
  globalObjectContributor : Bool := false
  explicitGlobalThis : Bool := false
  deriving DecidableEq, Repr

structure ReplayReverseEdge where
  dependency : ReplayOwner
  consumer : ReplayOwner
  deriving Repr

namespace ReplayReverseEdge

/-- The derived order compares the dependency first. -/
def sortKey (edge : ReplayReverseEdge) : ReplayOwner ×ₗ ReplayOwner :=
  toLex (edge.dependency, edge.consumer)

theorem sortKey_injective : Function.Injective sortKey := by
  rintro ⟨dependency, consumer⟩ ⟨dependency', consumer'⟩ h
  obtain ⟨rfl, rfl⟩ := Prod.mk.inj (toLex.injective h)
  rfl

instance : LinearOrder ReplayReverseEdge := LinearOrder.lift' sortKey sortKey_injective

end ReplayReverseEdge

inductive RootSlotKind
  | value | type | namespace
  deriving DecidableEq, Repr

/-- `RootSlotKind::tag`; the derived order is the order of the tags. -/
def RootSlotKind.tag : RootSlotKind → UInt8
  | .value => 0
  | .type => 1
  | .namespace => 2

theorem RootSlotKind.tag_injective : Function.Injective RootSlotKind.tag := by
  intro first second h
  cases first <;> cases second <;> first
    | rfl
    | simp [RootSlotKind.tag] at h

structure ReplayRootConsumer where
  name : String
  slot : RootSlotKind
  consumer : ReplayOwner
  deriving Repr

namespace ReplayRootConsumer

def sortKey (row : ReplayRootConsumer) : String ×ₗ Nat ×ₗ ReplayOwner :=
  toLex (row.name, toLex (row.slot.tag.toNat, row.consumer))

theorem sortKey_injective : Function.Injective sortKey := by
  rintro ⟨name, slot, consumer⟩ ⟨name', slot', consumer'⟩ h
  simp only [sortKey, EmbeddingLike.apply_eq_iff_eq, Prod.mk.injEq, UInt8.toNat_inj] at h
  obtain ⟨rfl, hslot, rfl⟩ := h
  rw [RootSlotKind.tag_injective hslot]

instance : LinearOrder ReplayRootConsumer := LinearOrder.lift' sortKey sortKey_injective

end ReplayRootConsumer

structure ReplayScc where
  replayOrdinal : UInt32
  owners : List ReplayOwner
  deriving DecidableEq, Repr

/-- A SHA-256 digest. -/
structure Digest where
  bytes : List UInt8
  length : bytes.length = 32
  deriving DecidableEq, Repr

theorem length_zeroBytes : (List.replicate 32 (0 : UInt8)).length = 32 := rfl

structure ReplayBaselineRecord where
  owner : ReplayOwner
  recordCount : UInt64
  digest : Digest
  deriving DecidableEq, Repr

/-- `ReplayDependencyKey`: what a consumer can depend on. -/
inductive ReplayDependencyKey
  | owner (owner : ReplayOwner)
  | rootSlot (name : String) (slot : RootSlotKind)
  deriving Repr

namespace ReplayDependencyKey

/-- Owners come before root slots in the derived order. -/
def sortKey : ReplayDependencyKey → ReplayOwner ⊕ₗ (String ×ₗ Nat)
  | .owner dependency => toLex (.inl dependency)
  | .rootSlot name slot => toLex (.inr (toLex (name, slot.tag.toNat)))

theorem sortKey_injective : Function.Injective sortKey := by
  intro first second h
  cases first <;> cases second <;>
    simp only [sortKey, EmbeddingLike.apply_eq_iff_eq, Sum.inl.injEq, Sum.inr.injEq,
      Prod.mk.injEq, UInt8.toNat_inj, reduceCtorEq] at h
  case owner.owner => rw [h]
  case rootSlot.rootSlot => rw [h.1, RootSlotKind.tag_injective h.2]

instance : LinearOrder ReplayDependencyKey := LinearOrder.lift' sortKey sortKey_injective

end ReplayDependencyKey

structure ReplayUnownedDemandSample where
  dependency : ReplayDependencyKey
  boundary : String
  deriving DecidableEq, Repr

inductive ReplayCoverageMiss
  | boundary (boundary : String)
  | dependency (consumer dependency : ReplayOwner)
  deriving DecidableEq, Repr

/-- `ReplayIndexGenerationError`. -/
inductive ReplayIndexGenerationError
  | unownedDemands (count : UInt64) (samples : List ReplayUnownedDemandSample)
  | invalidOwnerSites (count : UInt64)
  | noncanonicalEdges (count : UInt64)
  | typedReferenceCoverage (count : UInt64) (samples : List ReplayCoverageMiss)
  | missingOwnerSite (owner : ReplayOwner)
  | unknownOwner (owner : ReplayOwner)
  | duplicateOwner (owner : ReplayOwner)
  | duplicateOwnerSite (owner : ReplayOwner)
  | duplicateRootName (name : String)
  | invalidRootSlot (name : String)
  | duplicateStatement (key : LibraryEventKey)
  | statementPartitionMismatch
  | duplicateBaseline (owner : ReplayOwner)
  | baselinePartitionMismatch
  | independentOwnerSiteOracleMismatch
  | activeOwnerScopes
  | sharedTraceAtFinalization
  | integerOverflow
  deriving DecidableEq, Repr

/-! ## §3 The index and the plan -/

structure CollisionReplayIndex where
  schema : UInt32
  ownerPartition : List ReplayOwner
  rootSlots : List ReplayRootSlot
  ownerSites : List ReplayOwnerSite
  reverseEdges : List ReplayReverseEdge
  rootSlotConsumers : List ReplayRootConsumer
  sccMembership : List ReplayScc
  statementOwners : List (LibraryEventKey × ReplayOwner)
  baselineRecords : List ReplayBaselineRecord
  unownedDemandCount : UInt64
  invalidOwnerSiteCount : UInt64
  noncanonicalEdgeCount : UInt64
  typedReferenceCoverageMisses : UInt64
  canonicalManifestBytes : List UInt8
  canonicalManifestSha256 : Digest
  deriving DecidableEq, Repr

structure CollisionReplayPrefixBoundary where
  cardinality : UInt64
  exact : Bool
  deriving DecidableEq, Repr

structure CollisionReplayPlanHealth where
  missingActiveOwnerDemands : UInt64 := 0
  unmatchedOwnerSites : UInt64 := 0
  unownedTypedReferences : UInt64 := 0
  rawSemanticAccesses : UInt64 := 0
  deriving DecidableEq, Repr

structure CollisionReplayConstructionEvidence where
  librarySourceCompiles : UInt64 := 0
  binderSourceCensuses : UInt64 := 0
  canonicalSourceUnits : UInt64 := 0
  secondSourceCensuses : UInt64 := 0
  canonicalManifestBytes : UInt64 := 0
  renderedRecordDigestBytes : UInt64 := 0
  transitiveTerminalOwnerEntries : UInt64 := 0
  eagerAllOwnerSccMemberships : UInt64 := 0
  namespaceSnapshotRows : UInt64 := 0
  runtimeSnapshotRows : UInt64 := 0
  canonicalTerminalRows : UInt64 := 0
  fullSemanticProjectionRows : UInt64 := 0
  ticketSlots : UInt64 := 0
  ticketOwnerOrderedMapInserts : UInt64 := 0
  ownerSiteInnerHeapAllocations : UInt64 := 0
  ownerSiteDenseSlotWrites : UInt64 := 0
  ownerSiteOrderedMapInserts : UInt64 := 0
  traceDomainSealedAfterBinderReporting : Bool := false
  deriving DecidableEq, Repr

structure CollisionReplayPlan where
  rootNames : List String
  rootSlots : List ReplayRootSlot
  ownerSites : List CollisionReplayOwnerSite
  reverseEdges : List ReplayReverseEdge
  rootSlotConsumers : List ReplayRootConsumer
  rootSlotOwners : List ReplayOwner
  namespaceDirectOwners : List (NamespaceId × ReplayOwner)
  statementOwners : List (LibraryEventKey × ReplayOwner)
  baselineRecords : List ReplayBaselineRecord
  /-- `[CollisionReplayPrefixBoundary; 9]` -/
  prefixBoundaries : Vector CollisionReplayPrefixBoundary 9
  health : CollisionReplayPlanHealth
  construction : CollisionReplayConstructionEvidence
  sealedDigest : Option Digest
  deriving DecidableEq, Repr

end Typokat.Replay
