import Typokat.Check.Components
import Typokat.Lib.Checks
import Typokat.Replay.Digest
import Mathlib.Data.List.Sort
import Mathlib.Data.List.Destutter

/-!
# Finishing a Trace (`checker/replay_index.rs`)

The source compiler records what depends on what while it checks the library.  At the end
the trace becomes an index (`finish`) or a compact plan (`finish_compact_plan`).

Owner sites are kept in the flat storage; the other storage modes exist for tests only.
-/

namespace Typokat.Replay

open Check Lib

/-! ## §1 The state of a trace -/

structure ReplayTicketSlot where
  owner : LibraryEventKey
  site : Option CollisionReplayOwnerSite
  deriving DecidableEq, Repr

/-- `ReplayOwnerSiteStorage::Flat`. -/
structure ReplayOwnerSiteStorage where
  ticketSlots : List ReplayTicketSlot := []
  directSites : List CollisionReplayOwnerSite := []
  writes : UInt64 := 0
  deriving DecidableEq, Repr

structure FinishedReplayOwnerSiteStorage where
  ticketOwners : List LibraryEventKey
  ownerSites : List CollisionReplayOwnerSite
  ticketSlots : UInt64
  denseSlotWrites : UInt64
  deriving DecidableEq, Repr

def ReplayOwnerSiteStorage.finish (storage : ReplayOwnerSiteStorage) :
    FinishedReplayOwnerSiteStorage where
  ticketOwners := storage.ticketSlots.map (fun slot => slot.owner)
  ownerSites := storage.ticketSlots.filterMap (fun slot => slot.site) ++ storage.directSites
  ticketSlots := UInt64.ofNat (min storage.ticketSlots.length (2 ^ 64 - 1))
  denseSlotWrites := storage.writes

structure ReplayTraceState where
  activeOwners : List ReplayOwner := []
  activeTypedObservations : List Bool := []
  consumerDependencies : Std.TreeMap ReplayOwner (Std.TreeSet ReplayDependencyKey) := ∅
  unownedDemandCount : UInt64 := 0
  unownedDemandSamples : List ReplayUnownedDemandSample := []
  typedReferenceCoverageMisses : UInt64 := 0
  typedReferenceCoverageSamples : List ReplayCoverageMiss := []
  rawSemanticAccesses : UInt64 := 0
  ownerSites : ReplayOwnerSiteStorage := {}
  duplicateOwnerSiteCount : UInt64 := 0
  missingOwnerSiteCount : UInt64 := 0
  traceDomainSealedAfterBinderReporting : Bool := false

/-- `ReplayDependencyTrace`: a handle on the state; `shared` says that clones of it are alive. -/
structure ReplayDependencyTrace where
  state : ReplayTraceState
  shared : Bool := false

/-! ## §2 Rows of both tables -/

/-- The first of two neighbours with the same key. -/
def firstAdjacentDuplicate {A K : Type} [DecidableEq K] (key : A → K) : List A → Option A
  | [] => none
  | [_] => none
  | first :: second :: rest =>
    if key first = key second then some first
    else firstAdjacentDuplicate key (second :: rest)

/-- Sort by a key, then refuse rows with the same key. -/
def sortDistinct {A K : Type} [LinearOrder K] (key : A → K)
    (duplicate : A → ReplayIndexGenerationError)
    (rows : List A) : Except ReplayIndexGenerationError (List A) :=
  let rows := rows.insertionSort (fun first second => key first ≤ key second)
  match firstAdjacentDuplicate key rows with
  | some row => .error (duplicate row)
  | none => .ok rows

/-- The statement keys, in the order of their owners. -/
def sortStatementKeys (keys : List LibraryEventKey) :
    Except ReplayIndexGenerationError (List LibraryEventKey) :=
  sortDistinct ReplayOwner.statement .duplicateStatement keys

/-- The recorded pairs of a consumer and what it depends on. -/
def dependencyRows (state : ReplayTraceState) : List (ReplayOwner × ReplayDependencyKey) :=
  state.consumerDependencies.toList.flatMap (fun row =>
    row.2.toList.map (fun dependency => (row.1, dependency)))

/-- The rows that depend on an owner. -/
def ownerEdges (rows : List (ReplayOwner × ReplayDependencyKey)) : List ReplayReverseEdge :=
  rows.filterMap (fun row => match row.2 with
    | .owner dependency => some ⟨dependency, row.1⟩
    | .rootSlot _ _ => none)

/-- The rows that depend on a root slot. -/
def rootConsumers (rows : List (ReplayOwner × ReplayDependencyKey)) : List ReplayRootConsumer :=
  rows.filterMap (fun row => match row.2 with
    | .owner _ => none
    | .rootSlot name slot => some ⟨name, slot, row.1⟩)

/-- The names that are consumed but have no root slot, each once and in order. -/
def placeholderNames (rootSlots : List ReplayRootSlot) (consumers : List ReplayRootConsumer) :
    List String :=
  (((consumers.map (fun consumer => consumer.name)).insertionSort (· ≤ ·)).destutter
    (· ≠ ·)).filter (fun name => name ∉ rootSlots.map (fun root => root.name))

/-- Root slots with a placeholder for every consumed name that is not published. -/
def completeRootSlots (rootSlots : List ReplayRootSlot) (consumers : List ReplayRootConsumer) :
    Except ReplayIndexGenerationError (List ReplayRootSlot) :=
  sortDistinct (fun root => root.name) (fun root => .duplicateRootName root.name)
    (rootSlots ++ (placeholderNames rootSlots consumers).map
      (fun name => ({ name := name } : ReplayRootSlot)))

/-! ## §3 The index -/

/-- The order of owner sites in the index. -/
def ReplayOwnerSite.sortKey (site : ReplayOwnerSite) : ReplayOwner ×ₗ Nat ×ₗ Nat ×ₗ Nat :=
  toLex (site.owner, toLex (site.fileOrdinal.toNat, toLex (site.span.start.toNat,
    site.span.stop.toNat)))

variable (partition : List ReplayOwner)

/-- `validate_edge_rows`: how many rows are out of order, out of the partition or degenerate. -/
def validateEdgeRows (edges : List ReplayReverseEdge) (consumers : List ReplayRootConsumer) : Nat :=
  (edges.zipIdx.filter (fun entry =>
    entry.1.dependency = entry.1.consumer || entry.1.dependency ∉ partition
      || entry.1.consumer ∉ partition
      || (entry.2 ≠ 0 && edges[entry.2 - 1]?.any (fun previous => entry.1 ≤ previous)))).length
  + (consumers.zipIdx.filter (fun entry =>
    entry.1.name.isEmpty || entry.1.consumer ∉ partition
      || (entry.2 ≠ 0 && consumers[entry.2 - 1]?.any (fun previous => entry.1 ≤ previous)))).length

/-- The first recorded owner outside of the partition, in the order of the loop. -/
def unknownOwner (state : ReplayTraceState) : Option ReplayOwner :=
  (state.consumerDependencies.toList.flatMap (fun row =>
    row.1 :: row.2.toList.filterMap (fun dependency => match dependency with
      | .owner owner => some owner
      | .rootSlot _ _ => none))).find? (fun owner => owner ∉ partition)

/-- The graph of the partition with the recorded dependencies. -/
def dependencyGraph (edges : List ReplayReverseEdge) :
    DependencyGraph ReplayOwner :=
  edges.foldl (fun graph edge =>
    graph.insert edge.consumer ((graph.getD edge.consumer ∅).insert edge.dependency))
    (partition.foldl (fun graph owner => graph.insert owner ∅) ∅)

/-- The recorded dependencies: from a consumer to what it depends on. -/
def DependsOn (edges : List ReplayReverseEdge) (consumer dependency : ReplayOwner) : Prop :=
  ⟨dependency, consumer⟩ ∈ edges

/-- The components with their ordinals. -/
def replaySccs (components : List (List ReplayOwner)) :
    Except ReplayIndexGenerationError (List ReplayScc) :=
  components.zipIdx.mapM (fun entry =>
    if entry.2 < 2 ^ 32 then .ok ⟨UInt32.ofNat entry.2, entry.1⟩ else .error .integerOverflow)

/-- A sum of counters that stops at `u64::MAX`. -/
def saturatingAdd (first : UInt64) (second : Nat) : UInt64 :=
  UInt64.ofNat (min (first.toNat + second) (2 ^ 64 - 1))

/-- The sites of an index: sorted, valid, and at least one for every owner. -/
def indexSites (ownerSites : List ReplayOwnerSite) (invalidOwnerSiteCount : UInt64) :
    Except ReplayIndexGenerationError (List ReplayOwnerSite) := do
  let sites := ownerSites.insertionSort (fun first second => first.sortKey ≤ second.sortKey)
  let invalidSites := saturatingAdd invalidOwnerSiteCount (sites.filter (fun site =>
    site.owner ∉ partition || site.span.start > site.span.stop)).length
  rejectIf (invalidSites ≠ 0) (.invalidOwnerSites invalidSites)
  match firstAdjacentDuplicate id sites with
  | some site => throw (.duplicateOwnerSite site.owner)
  | none =>
    match partition.find? (fun owner => owner ∉ sites.map (fun site => site.owner)) with
    | some owner => throw (.missingOwnerSite owner)
    | none => return sites

/-- The statement keys of a partition. -/
def statementPartition : List LibraryEventKey :=
  partition.filterMap (fun owner => match owner with
    | .statement key => some key
    | _ => none)

/-- The first root slot without a name or with an owner outside of the partition. -/
def invalidRootSlot (rootSlots : List ReplayRootSlot) :
    Option ReplayRootSlot :=
  rootSlots.find? (fun root =>
    root.name.isEmpty || root.value.any (fun id => .value id ∉ partition)
      || root.ty.any (fun id => .typeGroup id ∉ partition)
      || root.namespaceId.any (fun id => .namespace id ∉ partition))

/-- `ReplayDependencyTrace::finish`. -/
def ReplayDependencyTrace.finish (sha256 : List UInt8 → Digest) (trace : ReplayDependencyTrace)
    (ownerPartition : List ReplayOwner) (rootSlots : List ReplayRootSlot)
    (ownerSites : List ReplayOwnerSite) (baselineRecords : List ReplayBaselineRecord)
    (invalidOwnerSiteCount : UInt64) :
    Except ReplayIndexGenerationError CollisionReplayIndex := do
  let state := trace.state
  rejectIf (trace.shared = true) .sharedTraceAtFinalization
  rejectIf (state.activeOwners ≠ []) .activeOwnerScopes
  rejectIf (state.unownedDemandCount ≠ 0)
    (.unownedDemands state.unownedDemandCount state.unownedDemandSamples)
  rejectIf (state.activeTypedObservations ≠ []) .activeOwnerScopes
  rejectIf (state.typedReferenceCoverageMisses ≠ 0)
    (.typedReferenceCoverage state.typedReferenceCoverageMisses state.typedReferenceCoverageSamples)
  let ownerPartition ← sortDistinct id .duplicateOwner ownerPartition
  let ownerSites ← indexSites ownerPartition ownerSites invalidOwnerSiteCount
  let statementKeys ← sortStatementKeys state.ownerSites.finish.ticketOwners
  rejectIf (statementPartition ownerPartition ≠ statementKeys) .statementPartitionMismatch
  let baselineRecords ← sortDistinct (fun record => record.owner)
    (fun record => .duplicateBaseline record.owner) baselineRecords
  rejectIf (baselineRecords.map (fun record => record.owner) ≠ ownerPartition)
    .baselinePartitionMismatch
  match unknownOwner ownerPartition state with
  | some owner => throw (.unknownOwner owner)
  | none =>
    let rows := dependencyRows state
    let reverseEdges := (ownerEdges rows).insertionSort (· ≤ ·)
    let rootSlotConsumers := (rootConsumers rows).insertionSort (· ≤ ·)
    let rootSlots ← completeRootSlots rootSlots rootSlotConsumers
    match invalidRootSlot ownerPartition rootSlots with
    | some root => throw (.invalidRootSlot root.name)
    | none =>
      let noncanonicalEdgeCount := UInt64.ofNat
        (min (validateEdgeRows ownerPartition reverseEdges rootSlotConsumers) (2 ^ 64 - 1))
      rejectIf (noncanonicalEdgeCount ≠ 0) (.noncanonicalEdges noncanonicalEdgeCount)
      let sccMembership ←
        replaySccs (dependencyFirstSccs (dependencyGraph ownerPartition (ownerEdges rows)))
      let index : CollisionReplayIndex := {
        schema := 1
        ownerPartition, rootSlots, ownerSites, reverseEdges, rootSlotConsumers, sccMembership
        statementOwners := statementKeys.map (fun key => (key, .statement key))
        baselineRecords
        unownedDemandCount := 0
        invalidOwnerSiteCount := 0
        noncanonicalEdgeCount
        typedReferenceCoverageMisses := 0
        canonicalManifestBytes := []
        canonicalManifestSha256 := ⟨List.replicate 32 0, length_zeroBytes⟩ }
      let manifest ← index.encode
      return { index with
        canonicalManifestBytes := manifest
        canonicalManifestSha256 := sha256 manifest }

/-! ## §4 The plan -/

/-- `declaration_owner_key`. -/
def declarationOwnerKey : DeclarationOwner → List Nat
  | .lexical scope => [0, scope.toNat]
  | .namespacePublic id => [1, id.toNat]
  | .namespacePrivate fragment => [2, fragment.toNat]
  | .compilationGlobal => [3, 0]
  | .deferredAmbientModule module => [4, module.toNat]

/-- What `compare_collision_replay_provenance` compares: the tag, the name and the numbers. -/
def provenanceKey : CollisionReplaySiteProvenance → Nat ×ₗ String ×ₗ List Nat
  | .declaration declaration kind binderOwner containingNamespace =>
    toLex (0, toLex ("", (declarationKindTag kind).toNat :: declarationOwnerKey binderOwner
      ++ [containingNamespace.elim 0 (fun id => id.toNat + 1), declaration.toNat]))
  | .event phase => toLex (1, toLex ("", [(eventPhaseTag phase).toNat]))
  | .globalContributor name kind binderOwner =>
    toLex (2, toLex (name, (globalContributorKindTag kind).toNat :: declarationOwnerKey binderOwner))
  | .explicitGlobalThis binderOwner => toLex (3, toLex ("", declarationOwnerKey binderOwner))

/-- What `compare_collision_replay_owner_sites` compares. -/
def CollisionReplayOwnerSite.sortKey (site : CollisionReplayOwnerSite) :
    ReplayOwner ×ₗ (Nat ×ₗ Nat ×ₗ Nat) ×ₗ (Nat ×ₗ String ×ₗ List Nat) :=
  toLex (site.owner, toLex (toLex (site.fileOrdinal.toNat, toLex (site.span.start.toNat,
    site.span.stop.toNat)), provenanceKey site.provenance))

/-- `canonicalize_collision_replay_owner_sites`. -/
def canonicalizeCollisionReplayOwnerSites (sites : List CollisionReplayOwnerSite) :
    List CollisionReplayOwnerSite :=
  sites.insertionSort (fun first second => first.sortKey ≤ second.sortKey)

/-- Declarations, events and contributors are sites of the owners they belong to. -/
def provenanceMatches (site : CollisionReplayOwnerSite) : Bool :=
  match site.owner, site.provenance with
  | .typeGroup _, .declaration .. => true
  | .value _, .declaration .. => true
  | .namespace _, .declaration .. => true
  | .class _, .declaration .. => true
  | .statement _, .event _ => true
  | .globalObject, .globalContributor _ _ .compilationGlobal => true
  | .globalObject, .explicitGlobalThis .compilationGlobal => true
  | _, _ => false

/-- The state of the loop over the sites: the next id of each dense domain. -/
structure DenseSites where
  typeGroups : Nat := 0
  values : Nat := 0
  namespaces : Nat := 0
  classes : Nat := 0
  globalOwnerCount : UInt64 := 0
  statementSiteKeys : List LibraryEventKey := []
  lastOwner : Option ReplayOwner := none
  deriving DecidableEq, Repr

/-- An owner of a dense domain has the next id. -/
def nextDense (id : UInt32) (next : Nat) : Except ReplayIndexGenerationError Nat := do
  rejectIf (id.toNat ≠ next) .baselinePartitionMismatch
  if next + 1 < 2 ^ 32 then return next + 1 else throw .integerOverflow

/-- The first site of an owner. -/
def DenseSites.addOwner (dense : DenseSites) :
    ReplayOwner → Except ReplayIndexGenerationError DenseSites
  | .typeGroup id => do return { dense with typeGroups := ← nextDense id dense.typeGroups }
  | .value id => do return { dense with values := ← nextDense id dense.values }
  | .namespace id => do return { dense with namespaces := ← nextDense id dense.namespaces }
  | .class id => do return { dense with classes := ← nextDense id dense.classes }
  | .globalObject => .ok { dense with globalOwnerCount := saturatingAdd dense.globalOwnerCount 1 }
  | .statement key => .ok { dense with statementSiteKeys := dense.statementSiteKeys ++ [key] }

/-- One turn of the loop over the sites. -/
def DenseSites.addSite (dense : DenseSites) (site : CollisionReplayOwnerSite) :
    Except ReplayIndexGenerationError DenseSites := do
  rejectIf (provenanceMatches site = false) (.invalidOwnerSites 1)
  if dense.lastOwner = some site.owner then return dense
  else DenseSites.addOwner { dense with lastOwner := some site.owner } site.owner

/-- The owners that a root slot names. -/
def ReplayRootSlot.owners (root : ReplayRootSlot) : List ReplayOwner :=
  (root.value.map ReplayOwner.value).toList ++ (root.ty.map ReplayOwner.typeGroup).toList
    ++ (root.namespaceId.map ReplayOwner.namespace).toList

/-- `sort_unstable` and `dedup`. -/
def sortDedup {A : Type} [LinearOrder A] (rows : List A) : List A :=
  (rows.insertionSort (· ≤ ·)).destutter (· ≠ ·)

/-- The owners that are declared directly in a namespace. -/
def namespaceDirectOwners (sites : List CollisionReplayOwnerSite) :
    List (NamespaceId × ReplayOwner) :=
  (sortDedup (sites.filterMap (fun site => match site.provenance with
    | .declaration _ _ _ (some namespaceId) => some (toLex (namespaceId.toNat, site.owner))
    | _ => none))).map (fun row => (UInt32.ofNat (ofLex row).1, (ofLex row).2))

/-- The sites of a plan, sorted and valid. -/
def planSites (ownerSites : List CollisionReplayOwnerSite) :
    Except ReplayIndexGenerationError (List CollisionReplayOwnerSite) := do
  let sites := canonicalizeCollisionReplayOwnerSites ownerSites
  let invalidSites := (sites.filter (fun site => site.span.start > site.span.stop)).length
  rejectIf (invalidSites ≠ 0) (.invalidOwnerSites (UInt64.ofNat invalidSites))
  rejectIf (firstAdjacentDuplicate id sites ≠ none) (.invalidOwnerSites 1)
  return sites

/-- How many rows name an owner without a site, or a name without a root slot. -/
def noncanonicalRows (sites : List CollisionReplayOwnerSite) (rootSlots : List ReplayRootSlot)
    (edges : List ReplayReverseEdge) (consumers : List ReplayRootConsumer)
    (baselines : List ReplayBaselineRecord) : Nat :=
  let owners := sites.map (fun site => site.owner)
  (edges.filter (fun edge => edge.dependency = edge.consumer || edge.dependency ∉ owners
    || edge.consumer ∉ owners)).length
  + (consumers.filter (fun row => row.consumer ∉ owners
    || row.name ∉ rootSlots.map (fun root => root.name))).length
  + (baselines.filter (fun record => (match record.owner with
      | .statement _ => false
      | _ => true) || record.owner ∉ owners)).length

/-- `ReplayDependencyTrace::finish_compact_plan`. -/
def ReplayDependencyTrace.finishCompactPlan (trace : ReplayDependencyTrace)
    (rootSlots : List ReplayRootSlot) (baselineRecords : List ReplayBaselineRecord)
    (prefixCardinalities : Vector UInt64 9) (construction : CollisionReplayConstructionEvidence) :
    Except ReplayIndexGenerationError CollisionReplayPlan := do
  let state := trace.state
  rejectIf (trace.shared = true) .sharedTraceAtFinalization
  rejectIf (state.activeOwners ≠ [] ∨ state.activeTypedObservations ≠ []) .activeOwnerScopes
  rejectIf (state.unownedDemandCount ≠ 0)
    (.unownedDemands state.unownedDemandCount state.unownedDemandSamples)
  rejectIf (state.typedReferenceCoverageMisses ≠ 0)
    (.typedReferenceCoverage state.typedReferenceCoverageMisses state.typedReferenceCoverageSamples)
  let invalidOwnerSiteCount :=
    saturatingAdd state.duplicateOwnerSiteCount state.missingOwnerSiteCount.toNat
  rejectIf (invalidOwnerSiteCount ≠ 0) (.invalidOwnerSites invalidOwnerSiteCount)
  let health : CollisionReplayPlanHealth := {
    missingActiveOwnerDemands := state.unownedDemandCount
    unmatchedOwnerSites := invalidOwnerSiteCount
    unownedTypedReferences := state.typedReferenceCoverageMisses
    rawSemanticAccesses := state.rawSemanticAccesses }
  rejectIf (health.rawSemanticAccesses ≠ 0)
    (.typedReferenceCoverage health.rawSemanticAccesses [.boundary "raw-semantic-access"])
  let storage := state.ownerSites.finish
  let construction := { construction with
    ticketSlots := storage.ticketSlots
    ticketOwnerOrderedMapInserts := 0
    ownerSiteInnerHeapAllocations := 0
    ownerSiteDenseSlotWrites := storage.denseSlotWrites
    ownerSiteOrderedMapInserts := 0
    traceDomainSealedAfterBinderReporting := state.traceDomainSealedAfterBinderReporting }
  let ownerSites ← planSites storage.ownerSites
  let statementKeys ← sortStatementKeys storage.ticketOwners
  let baselineRecords ← sortDistinct (fun record => record.owner)
    (fun record => .duplicateBaseline record.owner) baselineRecords
  rejectIf (∃ record ∈ baselineRecords, record.recordCount = 0) .baselinePartitionMismatch
  let rows := dependencyRows state
  let reverseEdges := (ownerEdges rows).insertionSort (· ≤ ·)
  let rootSlotConsumers := (rootConsumers rows).insertionSort (· ≤ ·)
  let publishedRootNames := sortDedup (rootSlots.map (fun root => root.name))
  let rootSlots ← completeRootSlots rootSlots rootSlotConsumers
  let dense ← ownerSites.foldlM DenseSites.addSite {}
  let needsGlobalOwner :=
    rootSlots.any (fun root => root.globalObjectContributor || root.explicitGlobalThis)
  rejectIf (dense.typeGroups ≠ prefixCardinalities[6].toNat
    ∨ dense.values ≠ prefixCardinalities[8].toNat
    ∨ dense.namespaces ≠ prefixCardinalities[7].toNat
    ∨ dense.classes ≠ prefixCardinalities[2].toNat
    ∨ dense.statementSiteKeys ≠ statementKeys
    ∨ dense.globalOwnerCount ≠ if needsGlobalOwner then 1 else 0) .baselinePartitionMismatch
  rejectIf (invalidRootSlot (ownerSites.map (fun site => site.owner)) rootSlots ≠ none)
    (.invalidRootSlot "<compact-plan>")
  let noncanonical :=
    noncanonicalRows ownerSites rootSlots reverseEdges rootSlotConsumers baselineRecords
  rejectIf (noncanonical ≠ 0) (.noncanonicalEdges (UInt64.ofNat noncanonical))
  return {
    rootNames := publishedRootNames
    rootSlots, ownerSites, reverseEdges, rootSlotConsumers
    rootSlotOwners := sortDedup (rootSlots.flatMap ReplayRootSlot.owners)
    namespaceDirectOwners := namespaceDirectOwners ownerSites
    statementOwners := statementKeys.map (fun key => (key, .statement key))
    baselineRecords
    prefixBoundaries := prefixCardinalities.map (fun cardinality => ⟨cardinality, false⟩)
    health
    construction
    sealedDigest := none }

end Typokat.Replay
