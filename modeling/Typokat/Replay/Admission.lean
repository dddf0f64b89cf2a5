import Typokat.Lib.Worklist
import Typokat.Replay.Trace
import Mathlib.Data.Finmap

/-!
# Admission of an Index (`checker/replay_index.rs`)

`admit_generated_collision_replay_index` checks an index again and derives the tables that
the sparse scheduler walks.  It is the only way to an admitted index.

Values of the derived tables are `u32` in the source.  They are kept as natural numbers here,
and each conversion is checked where the source checks it.
-/

namespace Typokat.Replay

open Check Lib

/-! ## §1 Limits and errors -/

/-- `ReplayIndexAdmissionError`. -/
inductive ReplayIndexAdmissionError
  | invalidEncoding
  | invalidOwnerPartition
  | invalidRootIndex
  | invalidDependencyGraph
  | invalidOwnerSites
  | invalidSccPartition
  | invalidStatementPartition
  | invalidBaselinePartition
  | nonzeroGenerationHealthCounter
  | manifestIdentityMismatch
  deriving DecidableEq, Repr

/-- `ReplayRootIdentity`: a published name with its value, type and namespace. -/
abbrev ReplayRootIdentity :=
  String × Option ValueStorageId × Option TypeGroupId × Option NamespaceId

structure ReplayIndexAdmissionLimits where
  typeGroups : UInt64
  valueStorages : UInt64
  namespaces : UInt64
  classes : UInt64
  sourceFiles : UInt64
  roots : List ReplayRootIdentity
  deriving DecidableEq, Repr

structure ReplayRowRange where
  start : Nat
  stop : Nat
  deriving DecidableEq, Repr

/-- `u32::try_from`. -/
def checkedU32 (error : ReplayIndexAdmissionError) (value : Nat) :
    Except ReplayIndexAdmissionError Nat :=
  if value < 2 ^ 32 then .ok value else .error error

/-- `ReplayRowRange::checked`, with the error that its callers put in place of its own. -/
def ReplayRowRange.checked (error : ReplayIndexAdmissionError) (start stop : Nat) :
    Except ReplayIndexAdmissionError ReplayRowRange :=
  if start < 2 ^ 32 ∧ stop < 2 ^ 32 then .ok ⟨start, stop⟩ else .error error

/-- `slice.get(range)` -/
def ReplayRowRange.rows {A : Type} (range : ReplayRowRange) (rows : List A) : List A :=
  (rows.take range.stop).drop range.start

variable (limits : ReplayIndexAdmissionLimits)

/-- `owner_in_bounds`. -/
def ownerInBounds : ReplayOwner → Prop
  | .typeGroup id => id.toNat < limits.typeGroups.toNat
  | .value id => id.toNat < limits.valueStorages.toNat
  | .namespace id => id.toNat < limits.namespaces.toNat
  | .class id => id.toNat < limits.classes.toNat
  | .globalObject => True
  | .statement key => key.fileOrdinal.toNat < limits.sourceFiles.toNat

instance (limits : ReplayIndexAdmissionLimits) (owner : ReplayOwner) :
    Decidable (ownerInBounds limits owner) := by
  cases owner <;> unfold ownerInBounds <;> infer_instance

/-! ## §2 Owners, roots and sites -/

/-- The number of owners that are no statements; `none` on overflow. -/
def expectedNonstatementCount : Option Nat :=
  let count := limits.typeGroups.toNat + limits.valueStorages.toNat + limits.namespaces.toNat
    + limits.classes.toNat + 1
  if count < 2 ^ 64 then some count else none

/-- One owner for every id below `count`. -/
def denseOwners (make : UInt32 → ReplayOwner) (count : UInt64) :
    Except ReplayIndexAdmissionError (List ReplayOwner) :=
  (List.range count.toNat).mapM (fun id =>
    if id < 2 ^ 32 then .ok (make (UInt32.ofNat id)) else .error .invalidOwnerPartition)

/-- The owners that are no statements, in order. -/
def expectedNonstatement :
    Except ReplayIndexAdmissionError (List ReplayOwner) := do
  let typeGroups ← denseOwners .typeGroup limits.typeGroups
  let values ← denseOwners .value limits.valueStorages
  let namespaces ← denseOwners .namespace limits.namespaces
  let classes ← denseOwners .class limits.classes
  return typeGroups ++ values ++ namespaces ++ classes ++ [.globalObject]

/-- The partition starts with the expected owners, is sorted and stays within the limits. -/
def admitOwnerPartition (partition : List ReplayOwner) :
    Except ReplayIndexAdmissionError Nat := do
  match expectedNonstatementCount limits with
  | none => throw .invalidOwnerPartition
  | some count =>
    rejectIf (partition.length < count) .invalidOwnerPartition
    let expected ← expectedNonstatement limits
    rejectIf (partition.take count ≠ expected ∨ ¬ partition.IsChain (· < ·)
      ∨ ∃ owner ∈ partition, ¬ ownerInBounds limits owner) .invalidOwnerPartition
    return count

/-- Root slots have names, are sorted by them and stay within the limits. -/
def admitRootSlots (rootSlots : List ReplayRootSlot) :
    Except ReplayIndexAdmissionError Unit :=
  rejectIf ((∃ root ∈ rootSlots, root.name.isEmpty)
    ∨ ¬ (rootSlots.map (fun root => root.name)).IsChain (· < ·)
    ∨ ∃ root ∈ rootSlots,
      (∃ id ∈ root.value, ¬ ownerInBounds limits (.value id))
      ∨ (∃ id ∈ root.ty, ¬ ownerInBounds limits (.typeGroup id))
      ∨ ∃ id ∈ root.namespaceId, ¬ ownerInBounds limits (.namespace id)) .invalidRootIndex

/-- How far the loop over the sites has come. -/
structure SiteCursor where
  rest : List ReplayOwnerSite
  index : Nat
  previous : Option (ReplayOwner ×ₗ Nat ×ₗ Nat ×ₗ Nat)

/-- The inner loop over the sites: the run of sites of one owner. -/
def takeOwnerSites (limits : ReplayIndexAdmissionLimits) (owner : ReplayOwner) (index : Nat)
    (previous : Option (ReplayOwner ×ₗ Nat ×ₗ Nat ×ₗ Nat)) :
    List ReplayOwnerSite → Except ReplayIndexAdmissionError SiteCursor
  | [] => .ok ⟨[], index, previous⟩
  | site :: rest =>
    if site.owner ≠ owner then .ok ⟨site :: rest, index, previous⟩
    else if (∃ key ∈ previous, site.sortKey ≤ key)
        ∨ limits.sourceFiles.toNat ≤ site.fileOrdinal.toNat
        ∨ site.span.stop.toNat < site.span.start.toNat then
      .error .invalidOwnerSites
    else takeOwnerSites limits owner (index + 1) (some site.sortKey) rest

/-- The loop over the owners: a range of sites for each, and what is left behind the last. -/
def takeSiteRanges (limits : ReplayIndexAdmissionLimits) (cursor : SiteCursor) :
    List ReplayOwner → Except ReplayIndexAdmissionError (List ReplayRowRange × SiteCursor)
  | [] => .ok ([], cursor)
  | owner :: owners => do
    let next ← takeOwnerSites limits owner cursor.index cursor.previous cursor.rest
    rejectIf (next.index = cursor.index) .invalidOwnerSites
    let range ← ReplayRowRange.checked .invalidOwnerSites cursor.index next.index
    let (ranges, last) ← takeSiteRanges limits next owners
    return (range :: ranges, last)

/-- The sites are grouped by owner in the order of the partition. -/
def ownerSiteRanges (partition : List ReplayOwner) (sites : List ReplayOwnerSite) :
    Except ReplayIndexAdmissionError (List ReplayRowRange) := do
  let (ranges, last) ← takeSiteRanges limits ⟨sites, 0, none⟩ partition
  rejectIf (last.index ≠ sites.length) .invalidOwnerSites
  return ranges

variable (partition : List ReplayOwner)

/-- Edges and consumers are sorted rows over the partition and the root slots. -/
def admitRows (rootSlots : List ReplayRootSlot) (edges : List ReplayReverseEdge)
    (consumers : List ReplayRootConsumer) :
    Except ReplayIndexAdmissionError Unit :=
  rejectIf (¬ edges.IsChain (· < ·)
    ∨ (∃ edge ∈ edges, edge.dependency = edge.consumer ∨ edge.dependency ∉ partition
      ∨ edge.consumer ∉ partition)
    ∨ ¬ consumers.IsChain (· < ·)
    ∨ ∃ row ∈ consumers, row.consumer ∉ partition
      ∨ row.name ∉ rootSlots.map (fun root => root.name)) .invalidDependencyGraph

/-- A root slot with a meaning. -/
def ReplayRootSlot.Populated (root : ReplayRootSlot) : Prop :=
  root.value.isSome ∨ root.ty.isSome ∨ root.namespaceId.isSome

instance (root : ReplayRootSlot) : Decidable root.Populated :=
  inferInstanceAs (Decidable (_ ∨ _ ∨ _))

def ReplayRootSlot.identity (root : ReplayRootSlot) : ReplayRootIdentity :=
  (root.name, root.value, root.ty, root.namespaceId)

/-- A map of root identities by name; a later entry replaces an earlier one. -/
def rootMap (roots : List ReplayRootIdentity) :
    Finmap (fun _ : String => Option ValueStorageId × Option TypeGroupId × Option NamespaceId) :=
  roots.foldl (fun map root => map.insert root.1 root.2) ∅

/-- Root slots are the published roots, and placeholders for the other consumed names. -/
def admitRootIndex (rootSlots : List ReplayRootSlot) (consumers : List ReplayRootConsumer) :
    Except ReplayIndexAdmissionError Unit :=
  let canonicalRoots := rootMap limits.roots
  let populatedRoots := rootMap
    ((rootSlots.filter (fun root => root.Populated)).map ReplayRootSlot.identity)
  let placeholderNames :=
    ((rootSlots.filter (fun root => ¬ root.Populated)).map (fun root => root.name)).toFinset
  let consumedPlaceholderNames :=
    ((consumers.map (fun consumer => consumer.name)).filter
      (fun name => name ∉ canonicalRoots)).toFinset
  rejectIf (populatedRoots ≠ canonicalRoots ∨ placeholderNames ≠ consumedPlaceholderNames)
    .invalidRootIndex

/-! ## §3 Root lookups -/

structure ReplayRootLookup where
  rootOrdinal : Nat
  valueSeeds : List ReplayOwner
  typeSeeds : List ReplayOwner
  namespaceSeeds : List ReplayOwner
  deriving DecidableEq, Repr

/-- Push onto the seeds of a slot (`seeds_mut`). -/
def ReplayRootLookup.push (lookup : ReplayRootLookup) (slot : RootSlotKind) (owner : ReplayOwner) :
    ReplayRootLookup :=
  match slot with
  | .value => { lookup with valueSeeds := lookup.valueSeeds ++ [owner] }
  | .type => { lookup with typeSeeds := lookup.typeSeeds ++ [owner] }
  | .namespace => { lookup with namespaceSeeds := lookup.namespaceSeeds ++ [owner] }

def ReplayRootLookup.canonical (lookup : ReplayRootLookup) : ReplayRootLookup :=
  { lookup with
    valueSeeds := sortDedup lookup.valueSeeds
    typeSeeds := sortDedup lookup.typeSeeds
    namespaceSeeds := sortDedup lookup.namespaceSeeds }

/-- What a root slot seeds itself. -/
def ReplayRootSlot.lookup (root : ReplayRootSlot) (ordinal : Nat) : ReplayRootLookup where
  rootOrdinal := ordinal
  valueSeeds := (root.value.map ReplayOwner.value).toList
  typeSeeds := (root.ty.map ReplayOwner.typeGroup).toList
  namespaceSeeds := (root.namespaceId.map ReplayOwner.namespace).toList

/-- One root slot; its name must be new. -/
def addRootLookup (lookups : List (String × ReplayRootLookup)) (entry : ReplayRootSlot × Nat) :
    Except ReplayIndexAdmissionError (List (String × ReplayRootLookup)) := do
  let ordinal ← checkedU32 .invalidRootIndex entry.2
  rejectIf (entry.1.name ∈ lookups.map Prod.fst) .invalidRootIndex
  return lookups ++ [(entry.1.name, entry.1.lookup ordinal)]

/-- One consumer; its name must have a lookup. -/
def pushRootConsumer (lookups : List (String × ReplayRootLookup)) (consumer : ReplayRootConsumer) :
    Except ReplayIndexAdmissionError (List (String × ReplayRootLookup)) := do
  rejectIf (consumer.name ∉ lookups.map Prod.fst) .invalidRootIndex
  return lookups.map (fun entry =>
    if entry.1 = consumer.name then (entry.1, entry.2.push consumer.slot consumer.consumer)
    else entry)

/-- `root_slot_lookup`: the lookups by name. -/
def rootSlotLookup (rootSlots : List ReplayRootSlot) (consumers : List ReplayRootConsumer) :
    Except ReplayIndexAdmissionError (List (String × ReplayRootLookup)) := do
  let lookups ← rootSlots.zipIdx.foldlM addRootLookup []
  let lookups ← consumers.foldlM pushRootConsumer lookups
  return lookups.map (fun entry => (entry.1, entry.2.canonical))

/-! ## §4 Components -/

structure SccTables where
  ownerToScc : List Nat
  sccOwnerRanges : List ReplayRowRange
  sccOwners : List ReplayOwner
  deriving DecidableEq, Repr

/-- `u32::MAX`, the mark of an owner without a component. -/
def unassigned : Nat := 2 ^ 32 - 1

/-- One owner of a component. -/
def SccTables.assign (ordinal : Nat) (tables : SccTables) (owner : ReplayOwner) :
    Except ReplayIndexAdmissionError SccTables :=
  match partition.idxOf? owner with
  | none => .error .invalidSccPartition
  | some position =>
    if tables.ownerToScc[position]? ≠ some unassigned then .error .invalidSccPartition
    else .ok { tables with
      ownerToScc := tables.ownerToScc.set position ordinal
      sccOwners := tables.sccOwners ++ [owner] }

/-- One component. -/
def SccTables.addComponent (tables : SccTables) (entry : ReplayScc × Nat) :
    Except ReplayIndexAdmissionError SccTables := do
  let (component, position) := entry
  let ordinal ← checkedU32 .invalidSccPartition position
  rejectIf (component.replayOrdinal.toNat ≠ ordinal ∨ component.owners = []
    ∨ ¬ component.owners.IsChain (· < ·)) .invalidSccPartition
  let next ← component.owners.foldlM (SccTables.assign partition ordinal) tables
  let range ← ReplayRowRange.checked .invalidSccPartition tables.sccOwners.length
    next.sccOwners.length
  return { next with sccOwnerRanges := next.sccOwnerRanges ++ [range] }

variable (sccs : List ReplayScc)

/-- The tables of the components; every owner lies in one. -/
def sccTables :
    Except ReplayIndexAdmissionError SccTables := do
  let tables ← sccs.zipIdx.foldlM (SccTables.addComponent partition)
    ⟨List.replicate partition.length unassigned, [], []⟩
  rejectIf (unassigned ∈ tables.ownerToScc) .invalidSccPartition
  return tables

/-- `owner_to_scc[owner_ordinals[owner]]`; edges only name owners of the partition. -/
def sccOf (ownerToScc : List Nat) (owner : ReplayOwner) : Nat :=
  ownerToScc.getD (partition.idxOf owner) unassigned

/-- Edges within one component. -/
def innerEdges (scc : ReplayOwner → Nat) (edges : List ReplayReverseEdge) :
    List ReplayReverseEdge :=
  edges.filter (fun edge => scc edge.dependency = scc edge.consumer)

/-- The pairs of different components with an edge, sorted and once. -/
def componentEdges (scc : ReplayOwner → Nat) (edges : List ReplayReverseEdge) :
    List (Nat ×ₗ Nat) :=
  sortDedup ((edges.filter (fun edge => scc edge.dependency ≠ scc edge.consumer)).map
    (fun edge => toLex (scc edge.dependency, scc edge.consumer)))

structure ReverseSccTables where
  offsets : List Nat
  edges : List Nat
  rest : List (Nat ×ₗ Nat)
  deriving DecidableEq

/-- The loop over the components that fills the offsets; `filled` edges are in the table. -/
def fillOffsets (rows : List (Nat ×ₗ Nat)) (filled : Nat) :
    List Nat → Except ReplayIndexAdmissionError ReverseSccTables
  | [] => do
    let offset ← checkedU32 .invalidSccPartition filled
    return ⟨[offset], [], rows⟩
  | component :: components => do
    let offset ← checkedU32 .invalidSccPartition filled
    let dependency ← checkedU32 .invalidSccPartition component
    let consumers := (rows.takeWhile (fun row => (ofLex row).1 = dependency)).map
      (fun row => (ofLex row).2)
    let tables ← fillOffsets (rows.dropWhile (fun row => (ofLex row).1 = dependency))
      (filled + consumers.length) components
    return ⟨offset :: tables.offsets, consumers ++ tables.edges, tables.rest⟩

/-- `reverse_scc_offsets` and `reverse_scc_edges`. -/
def reverseSccTables (rows : List (Nat ×ₗ Nat)) (components : Nat) :
    Except ReplayIndexAdmissionError ReverseSccTables := do
  let tables ← fillOffsets rows 0 (List.range components)
  rejectIf (tables.rest ≠ []) .invalidSccPartition
  return tables

/-- The consumers of a component in the tables. -/
def ReverseSccTables.consumers (tables : ReverseSccTables) (component : Nat) : List Nat :=
  (tables.edges.take (tables.offsets.getD (component + 1) 0)).drop
    (tables.offsets.getD component 0)

/-- The targets of an owner in a list of rows. -/
def adjacent (rows : List (ReplayOwner × ReplayOwner)) (owner : ReplayOwner) :
    List ReplayOwner :=
  (rows.filter (fun row => row.1 = owner)).map Prod.snd

/-- Reaching an owner pays for the targets of its rows. -/
theorem length_unreached (rows : List (ReplayOwner × ReplayOwner)) {owner : ReplayOwner}
    {reached : Finset ReplayOwner} (howner : owner ∉ reached) :
    (rows.filter (fun row => row.1 ∉ insert owner reached)).length
      + (adjacent rows owner).length
      = (rows.filter (fun row => row.1 ∉ reached)).length := by
  rw [adjacent, List.length_map]
  induction rows with
  | nil => rfl
  | cons row rows ih =>
    simp only [List.filter_cons, Finset.mem_insert, not_or, decide_eq_true_eq]
    simp only [Finset.mem_insert, not_or] at ih
    by_cases hrow : row.1 = owner
    · simp only [hrow, not_true_eq_false, false_and, if_false, if_true, howner,
        not_false_eq_true, List.length_cons]
      omega
    · by_cases hin : row.1 ∈ reached
      · simp only [hrow, hin, not_true_eq_false, and_false, if_false]
        exact ih
      · simp only [hrow, hin, not_false_eq_true, and_self, if_true, if_false, List.length_cons]
        omega

/-- `reaches_component`: what is reached along the rows; the top of the stack comes first. -/
def reachesComponent (rows : List (ReplayOwner × ReplayOwner)) (pending : List ReplayOwner)
    (reached : Finset ReplayOwner) : Finset ReplayOwner :=
  match pending with
  | [] => reached
  | owner :: pending =>
    if owner ∈ reached then reachesComponent rows pending reached
    else
      reachesComponent rows ((adjacent rows owner).reverse ++ pending) (insert owner reached)
termination_by (rows.filter (fun row => row.1 ∉ reached)).length + pending.length
decreasing_by
  · simp
  · have hpaid := length_unreached rows (by assumption : owner ∉ reached)
    rw [List.length_append, List.length_reverse, List.length_cons]
    omega

/-- Every component with more than one owner is reached from its first owner, both ways. -/
def admitConnected (edges : List ReplayReverseEdge) (sccs : List ReplayScc) :
    Except ReplayIndexAdmissionError Unit :=
  let forward := edges.map (fun edge => (edge.consumer, edge.dependency))
  let reverse := edges.map (fun edge => (edge.dependency, edge.consumer))
  rejectIf (∃ component ∈ sccs, 1 < component.owners.length ∧ ∃ first ∈ component.owners.head?,
    reachesComponent forward [first] ∅ ≠ component.owners.toFinset
      ∨ reachesComponent reverse [first] ∅ ≠ component.owners.toFinset) .invalidSccPartition

/-- The components that wait for nothing, by their first owners.  A component enters the heap
of the source once, when its count reaches zero. -/
structure ReadyHeap where
  counts : List Nat
  ready : ReadySet ReplayOwner

def ReadyHeap.push (heap : ReadyHeap) (component : Nat) : ReadyHeap :=
  { heap with
    ready := insertReady (sccs.map (fun scc => scc.owners)) heap.ready component }

/-- One dependent of a component that was taken. -/
def ReadyHeap.release (heap : ReadyHeap) (dependent : Nat) : ReadyHeap :=
  let next := { heap with counts := heap.counts.modify dependent (· - 1) }
  if next.counts.getD dependent 0 = 0 then next.push sccs dependent else next

/-- One turn: the least ready component has to be the next one. -/
def ReadyHeap.take (tables : ReverseSccTables) (heap : ReadyHeap) (expected : Nat) :
    Except ReplayIndexAdmissionError ReadyHeap :=
  match heap.ready.toList.head? with
  | none => .error .invalidSccPartition
  | some entry =>
    if (ofLex entry).2 ≠ expected then .error .invalidSccPartition
    else .ok ((tables.consumers expected).foldl (ReadyHeap.release sccs)
      { heap with ready := heap.ready.erase entry })

/-- The components come in the order in which the heap hands them out. -/
def admitReadyOrder (tables : ReverseSccTables) :
    Except ReplayIndexAdmissionError Unit := do
  let counts := (List.range sccs.length).map (fun component => tables.edges.count component)
  rejectIf (∃ count ∈ counts, 2 ^ 64 ≤ count) .invalidSccPartition
  let start := ((List.range sccs.length).filter (fun component => counts.getD component 0 = 0)).foldl
    (ReadyHeap.push sccs) ⟨counts, ∅⟩
  let heap ← (List.range sccs.length).foldlM (ReadyHeap.take sccs tables) start
  rejectIf (heap.ready.toList ≠ []) .invalidSccPartition

/-! ## §5 The whole check -/

/-- Statement owners are the rest of the partition. -/
def admitStatements (rest : List ReplayOwner)
    (statementOwners : List (LibraryEventKey × ReplayOwner)) :
    Except ReplayIndexAdmissionError Unit :=
  let expected := (statementPartition rest).map (fun key => (key, ReplayOwner.statement key))
  rejectIf (expected.length ≠ rest.length ∨ statementOwners ≠ expected) .invalidStatementPartition

/-- `empty_baseline_digest`. -/
def emptyBaselineDigest (sha256 : List UInt8 → Digest) : Digest :=
  sha256 (stringBytes "typokat-collision-replay-owner-records-v1" ++ manifestU64 0)

def ReplayOwner.IsStatement (owner : ReplayOwner) : Prop :=
  ∃ key, owner = .statement key

instance : DecidablePred ReplayOwner.IsStatement := fun owner => by
  cases owner with
  | statement key => exact .isTrue ⟨key, rfl⟩
  | _ => exact .isFalse (by rintro ⟨_, h⟩; cases h)

/-- A baseline for every owner; only statements have records. -/
def baselineRecordRanges (sha256 : List UInt8 → Digest) (partition : List ReplayOwner)
    (records : List ReplayBaselineRecord) :
    Except ReplayIndexAdmissionError (List ReplayRowRange) := do
  rejectIf (records.length ≠ partition.length) .invalidBaselinePartition
  (partition.zip records).zipIdx.mapM (fun entry => do
    let ((owner, record), index) := entry
    rejectIf (record.owner ≠ owner ∨ (¬ record.owner.IsStatement
      ∧ (record.recordCount ≠ 0 ∨ record.digest ≠ emptyBaselineDigest sha256)))
      .invalidBaselinePartition
    ReplayRowRange.checked .invalidBaselinePartition index (index + 1))

structure AdmittedCollisionReplayIndex where
  schema : UInt32
  ownerPartition : List ReplayOwner
  rootSlots : List ReplayRootSlot
  ownerSites : List ReplayOwnerSite
  reverseEdges : List ReplayReverseEdge
  rootSlotConsumers : List ReplayRootConsumer
  sccMembership : List ReplayScc
  statementOwners : List (LibraryEventKey × ReplayOwner)
  baselineRecords : List ReplayBaselineRecord
  unownedDemandCount : UInt64
  invalidOwnerSiteCount : UInt64
  noncanonicalEdgeCount : UInt64
  typedReferenceCoverageMisses : UInt64
  ownerToScc : List Nat
  sccOwnerRanges : List ReplayRowRange
  sccOwners : List ReplayOwner
  reverseSccOffsets : List Nat
  reverseSccEdges : List Nat
  rootSlotLookup : List (String × ReplayRootLookup)
  ownerSiteRanges : List ReplayRowRange
  baselineRecordRanges : List ReplayRowRange
  canonicalManifestLen : Nat
  canonicalManifestSha256 : Digest
  deriving DecidableEq, Repr

/-- `admit_generated_collision_replay_index`. -/
def admitGeneratedCollisionReplayIndex (sha256 : List UInt8 → Digest)
    (decoded : CollisionReplayIndex) (limits : ReplayIndexAdmissionLimits)
    (expectedManifestSha256 : Option Digest) :
    Except ReplayIndexAdmissionError AdmittedCollisionReplayIndex := do
  let nonstatements ← admitOwnerPartition limits decoded.ownerPartition
  admitRootSlots limits decoded.rootSlots
  let siteRanges ← ownerSiteRanges limits decoded.ownerPartition decoded.ownerSites
  admitRows decoded.ownerPartition decoded.rootSlots decoded.reverseEdges decoded.rootSlotConsumers
  admitRootIndex limits decoded.rootSlots decoded.rootSlotConsumers
  let lookup ← rootSlotLookup decoded.rootSlots decoded.rootSlotConsumers
  let tables ← sccTables decoded.ownerPartition decoded.sccMembership
  let scc := sccOf decoded.ownerPartition tables.ownerToScc
  rejectIf (∃ edge ∈ decoded.reverseEdges, scc edge.consumer < scc edge.dependency)
    .invalidSccPartition
  let reverse ← reverseSccTables (componentEdges scc decoded.reverseEdges)
    decoded.sccMembership.length
  admitConnected (innerEdges scc decoded.reverseEdges) decoded.sccMembership
  admitReadyOrder decoded.sccMembership reverse
  admitStatements (decoded.ownerPartition.drop nonstatements) decoded.statementOwners
  let baselines ← baselineRecordRanges sha256 decoded.ownerPartition decoded.baselineRecords
  rejectIf (decoded.unownedDemandCount ≠ 0 ∨ decoded.invalidOwnerSiteCount ≠ 0
    ∨ decoded.noncanonicalEdgeCount ≠ 0 ∨ decoded.typedReferenceCoverageMisses ≠ 0)
    .nonzeroGenerationHealthCounter
  rejectIf (∃ expected ∈ expectedManifestSha256, decoded.canonicalManifestSha256 ≠ expected)
    .manifestIdentityMismatch
  return {
    schema := decoded.schema
    ownerPartition := decoded.ownerPartition
    rootSlots := decoded.rootSlots
    ownerSites := decoded.ownerSites
    reverseEdges := decoded.reverseEdges
    rootSlotConsumers := decoded.rootSlotConsumers
    sccMembership := decoded.sccMembership
    statementOwners := decoded.statementOwners
    baselineRecords := decoded.baselineRecords
    unownedDemandCount := decoded.unownedDemandCount
    invalidOwnerSiteCount := decoded.invalidOwnerSiteCount
    noncanonicalEdgeCount := decoded.noncanonicalEdgeCount
    typedReferenceCoverageMisses := decoded.typedReferenceCoverageMisses
    ownerToScc := tables.ownerToScc
    sccOwnerRanges := tables.sccOwnerRanges
    sccOwners := tables.sccOwners
    reverseSccOffsets := reverse.offsets
    reverseSccEdges := reverse.edges
    rootSlotLookup := lookup
    ownerSiteRanges := siteRanges
    baselineRecordRanges := baselines
    canonicalManifestLen := decoded.canonicalManifestBytes.length
    canonicalManifestSha256 := decoded.canonicalManifestSha256 }

end Typokat.Replay
