import Typokat.Lib.Runs
import Typokat.Replay.Finished

/-!
# The Compact Plan (`checker/replay_index.rs`)

How the rows of a plan are looked up, and how a plan is sealed.

## Main Results

- `finishCompactPlan_ok` : the rows of a plan come from the trace
- `seal_ok` : sealing leaves every row as it is
-/

namespace Typokat.Replay

open Check Lib

/-! ## §1 Lookups -/

namespace CollisionReplayPlan

/-- `root_slot`; names are distinct. -/
def rootSlot (plan : CollisionReplayPlan) (name : String) : Option ReplayRootSlot :=
  plan.rootSlots.find? (fun root => root.name = name)

/-- `root_consumers`. -/
def rootConsumers (plan : CollisionReplayPlan) (name : String) : List ReplayRootConsumer :=
  rowsWithKey (fun row => row.name) plan.rootSlotConsumers name

/-- `namespace_direct_owners`. -/
def namespaceDirectOwnersOf (plan : CollisionReplayPlan) (wanted : NamespaceId) :
    List ReplayOwner :=
  (rowsWithKey (fun row => row.1.toNat) plan.namespaceDirectOwners wanted.toNat).map
    (fun row => row.2)

/-- `reverse_consumers`. -/
def reverseConsumers (plan : CollisionReplayPlan) (owner : ReplayOwner) : List ReplayReverseEdge :=
  rowsWithKey (fun edge => edge.dependency) plan.reverseEdges owner

/-- `owner_sites_for`. -/
def ownerSitesFor (plan : CollisionReplayPlan) (owner : ReplayOwner) :
    List CollisionReplayOwnerSite :=
  rowsWithKey (fun site => site.owner) plan.ownerSites owner

/-- `baselines_for`. -/
def baselinesFor (plan : CollisionReplayPlan) (owner : ReplayOwner) : List ReplayBaselineRecord :=
  rowsWithKey (fun record => record.owner) plan.baselineRecords owner

/-- `contains_mutation_owner`. -/
def containsMutationOwner (plan : CollisionReplayPlan) (owner : ReplayOwner) : Bool :=
  owner ∈ plan.rootSlotOwners || owner ∈ plan.ownerSites.map (fun site => site.owner)

/-- `prefix_cardinality`. -/
def prefixCardinality (plan : CollisionReplayPlan) (family : Nat) : Option UInt64 :=
  plan.prefixBoundaries[family]?.map (fun boundary => boundary.cardinality)

/-! ## §2 Sealing -/

/-- `intrinsic_admission_evidence_is_valid`. -/
def intrinsicAdmissionEvidenceIsValid (plan : CollisionReplayPlan) : Bool :=
  plan.health = {}
    && plan.construction.librarySourceCompiles = 1
    && plan.construction.canonicalSourceUnits ≠ 0
    && plan.construction.binderSourceCensuses = plan.construction.canonicalSourceUnits
    && plan.construction.secondSourceCensuses = 0
    && plan.construction.canonicalManifestBytes = 0
    && plan.construction.renderedRecordDigestBytes = 0
    && plan.construction.transitiveTerminalOwnerEntries = 0
    && plan.construction.eagerAllOwnerSccMemberships = 0
    && plan.construction.namespaceSnapshotRows = 0
    && plan.construction.runtimeSnapshotRows = 0
    && plan.construction.canonicalTerminalRows = 0
    && plan.construction.fullSemanticProjectionRows = 0
    && plan.construction.ticketSlots.toNat = min plan.statementOwners.length (2 ^ 64 - 1)
    && plan.construction.ticketOwnerOrderedMapInserts = 0
    && plan.construction.ownerSiteInnerHeapAllocations = 0
    && plan.construction.ownerSiteDenseSlotWrites.toNat = min plan.ownerSites.length (2 ^ 64 - 1)
    && plan.construction.ownerSiteOrderedMapInserts = 0
    && plan.construction.traceDomainSealedAfterBinderReporting

/-- The boundaries with a mark on those that were observed. -/
def observeBoundaries (plan : CollisionReplayPlan) (observed : Vector UInt64 9) :
    CollisionReplayPlan :=
  { plan with
    prefixBoundaries := Vector.zipWith (fun boundary cardinality =>
      ⟨boundary.cardinality, boundary.cardinality = cardinality⟩) plan.prefixBoundaries observed }

/-- `seal_for_frozen_base`. -/
def sealForFrozenBase (sha256 : List UInt8 → Digest) (plan : CollisionReplayPlan)
    (observed : Vector UInt64 9) (profileIdentity : String) :
    Except ReplayIndexGenerationError CollisionReplayPlan := do
  rejectIf (plan.sealedDigest ≠ none) .baselinePartitionMismatch
  let plan := plan.observeBoundaries observed
  rejectIf ((∃ boundary ∈ plan.prefixBoundaries.toList, boundary.exact = false)
    ∨ plan.intrinsicAdmissionEvidenceIsValid = false) .baselinePartitionMismatch
  return { plan with sealedDigest := some (plan.admissionDigest sha256 profileIdentity) }

/-- `admit_for_frozen_base`. -/
def admitForFrozenBase (sha256 : List UInt8 → Digest) (plan : CollisionReplayPlan)
    (observed : Vector UInt64 9) (profileIdentity : String) :
    Except ReplayIndexGenerationError Unit :=
  match plan.sealedDigest with
  | none => .error .baselinePartitionMismatch
  | some expected =>
    rejectIf ((∃ row ∈ plan.prefixBoundaries.toList.zip observed.toList,
        row.1.exact = false ∨ row.1.cardinality ≠ row.2)
      ∨ plan.intrinsicAdmissionEvidenceIsValid = false
      ∨ plan.admissionDigest sha256 profileIdentity ≠ expected) .baselinePartitionMismatch

/-- `seal_admit_and_materialize_root_name_index`: the sealed plan and its root names. -/
def sealAdmitAndMaterializeRootNameIndex (sha256 : List UInt8 → Digest)
    (plan : CollisionReplayPlan) (observed : Vector UInt64 9) (profileIdentity : String) :
    Except ReplayIndexGenerationError (CollisionReplayPlan × Finset String) := do
  let plan ← plan.sealForFrozenBase sha256 observed profileIdentity
  plan.admitForFrozenBase sha256 observed profileIdentity
  return (plan, plan.rootNames.toFinset)

/-- Two plans with the same rows. -/
structure SameRows (first second : CollisionReplayPlan) : Prop where
  rootNames : first.rootNames = second.rootNames
  rootSlots : first.rootSlots = second.rootSlots
  ownerSites : first.ownerSites = second.ownerSites
  reverseEdges : first.reverseEdges = second.reverseEdges
  rootSlotConsumers : first.rootSlotConsumers = second.rootSlotConsumers
  rootSlotOwners : first.rootSlotOwners = second.rootSlotOwners
  namespaceDirectOwners : first.namespaceDirectOwners = second.namespaceDirectOwners
  baselineRecords : first.baselineRecords = second.baselineRecords

section Sealing

variable {sha256 : List UInt8 → Digest} {plan sealed : CollisionReplayPlan}
  {observed : Vector UInt64 9} {profileIdentity : String}

/-- Sealing marks boundaries and adds the digest. -/
theorem seal_ok (h : plan.sealForFrozenBase sha256 observed profileIdentity = .ok sealed) :
    SameRows sealed plan := by
  unfold sealForFrozenBase at h
  obtain ⟨_, h⟩ := rejectIf_bind_eq_ok.mp h
  dsimp only at h
  obtain ⟨_, h⟩ := rejectIf_bind_eq_ok.mp h
  cases h
  exact ⟨rfl, rfl, rfl, rfl, rfl, rfl, rfl, rfl⟩

/-- The root names come from the plan, and sealing leaves its rows. -/
theorem materialize_ok {rootNames : Finset String}
    (h : plan.sealAdmitAndMaterializeRootNameIndex sha256 observed profileIdentity =
      .ok (sealed, rootNames)) :
    SameRows sealed plan ∧ rootNames = plan.rootNames.toFinset := by
  obtain ⟨result, hseal, h⟩ := bind_eq_ok.mp h
  obtain ⟨_, _, h⟩ := bind_eq_ok.mp h
  cases h
  have hrows := seal_ok hseal
  exact ⟨hrows, by rw [hrows.rootNames]⟩

end Sealing

end CollisionReplayPlan

/-! ## §3 Rows of a finished plan -/

/-- What `finish_compact_plan` guarantees of the plan it returns. -/
structure FinishedPlan (trace : ReplayDependencyTrace) (rootSlots : List ReplayRootSlot)
    (plan : CollisionReplayPlan) : Prop where
  reverseEdges : plan.reverseEdges = (ownerEdges (dependencyRows trace.state)).insertionSort (· ≤ ·)
  rootSlotConsumers : plan.rootSlotConsumers =
    (Replay.rootConsumers (dependencyRows trace.state)).insertionSort (· ≤ ·)
  rootNames : plan.rootNames = sortDedup (rootSlots.map (fun root => root.name))
  slots : CompleteSlots rootSlots plan.rootSlotConsumers plan.rootSlots

section Compact

variable {trace : ReplayDependencyTrace} {rootSlots : List ReplayRootSlot}
  {plan : CollisionReplayPlan}

/-- **A finished plan is canonical.** -/
theorem finishCompactPlan_ok {baselineRecords : List ReplayBaselineRecord}
    {prefixCardinalities : Vector UInt64 9} {construction : CollisionReplayConstructionEvidence}
    (h : trace.finishCompactPlan rootSlots baselineRecords prefixCardinalities construction =
      .ok plan) : FinishedPlan trace rootSlots plan := by
  unfold ReplayDependencyTrace.finishCompactPlan at h
  dsimp only at h
  obtain ⟨_, h⟩ := rejectIf_bind_eq_ok.mp h
  obtain ⟨_, h⟩ := rejectIf_bind_eq_ok.mp h
  obtain ⟨_, h⟩ := rejectIf_bind_eq_ok.mp h
  obtain ⟨_, h⟩ := rejectIf_bind_eq_ok.mp h
  obtain ⟨_, h⟩ := rejectIf_bind_eq_ok.mp h
  obtain ⟨_, h⟩ := rejectIf_bind_eq_ok.mp h
  obtain ⟨sites, hsites, h⟩ := bind_eq_ok.mp h
  obtain ⟨keys, hkeys, h⟩ := bind_eq_ok.mp h
  obtain ⟨baselines, hbaselines, h⟩ := bind_eq_ok.mp h
  obtain ⟨_, h⟩ := rejectIf_bind_eq_ok.mp h
  obtain ⟨slots, hslots, h⟩ := bind_eq_ok.mp h
  obtain ⟨dense, hdense, h⟩ := bind_eq_ok.mp h
  obtain ⟨_, h⟩ := rejectIf_bind_eq_ok.mp h
  obtain ⟨_, h⟩ := rejectIf_bind_eq_ok.mp h
  obtain ⟨_, h⟩ := rejectIf_bind_eq_ok.mp h
  cases h
  exact ⟨rfl, rfl, rfl, completeRootSlots_ok hslots⟩

theorem FinishedPlan.edges_sorted (h : FinishedPlan trace rootSlots plan) :
    plan.reverseEdges.Pairwise (fun first second => first.dependency ≤ second.dependency) := by
  rw [h.reverseEdges]
  refine (List.pairwise_insertionSort (· ≤ ·) _).imp (fun {first second} hle => ?_)
  exact (Prod.Lex.le_iff.mp hle).elim (fun hlt => hlt.le) (fun heq => heq.1.le)

theorem FinishedPlan.consumers_sorted (h : FinishedPlan trace rootSlots plan) :
    plan.rootSlotConsumers.Pairwise (fun first second => first.name ≤ second.name) := by
  rw [h.rootSlotConsumers]
  refine (List.pairwise_insertionSort (· ≤ ·) _).imp (fun {first second} hle => ?_)
  exact (Prod.Lex.le_iff.mp hle).elim (fun hlt => hlt.le) (fun heq => heq.1.le)

end Compact

end Typokat.Replay
