import Typokat.Replay.AdmittedOrder

/-!
# Accepted Indexes (`checker/replay_index.rs`)

The checks of the admission put together.

## Main Results

- `admit_exact` : what an accepted index and its tables are
- `admit_finished` : a finished index is accepted
- `admission_complete` : both together
-/

namespace Typokat.Replay

open Check Lib List

/-! ## §1 Accepted indexes -/

/-- `SparseReplayGraphAccess::reverse_sccs`; `slice.get(start..end)` fails on a bad range. -/
def AdmittedCollisionReplayIndex.reverseSccs (admitted : AdmittedCollisionReplayIndex) (scc : Nat) :
    Option (List Nat) := do
  let start ← admitted.reverseSccOffsets[scc]?
  let stop ← admitted.reverseSccOffsets[scc + 1]?
  if start ≤ stop ∧ stop ≤ admitted.reverseSccEdges.length then
    some ((admitted.reverseSccEdges.take stop).drop start)
  else none

/-- One component depends on another: one of its owners consumes one of the other's. -/
def DependsOnScc (index : CollisionReplayIndex) (consumer dependency : ReplayScc) : Prop :=
  ∃ owner ∈ consumer.owners, ∃ target ∈ dependency.owners,
    DependsOn index.reverseEdges owner target

/-- The tables of an accepted index say what they should. -/
structure AdmittedExactly (index : CollisionReplayIndex)
    (admitted : AdmittedCollisionReplayIndex) : Prop where
  /-- the components are those of `dependency_first_sccs`, with their positions -/
  sccMembership : replaySccs (dependencyFirstSccs
    (dependencyGraph index.ownerPartition index.reverseEdges)) = .ok index.sccMembership
  /-- every owner is sent to the component that holds it -/
  ownerToScc : admitted.ownerToScc.length = index.ownerPartition.length ∧
    ∀ (position : Nat) owner, index.ownerPartition[position]? = some owner →
      ∃ scc component, admitted.ownerToScc[position]? = some scc ∧
        index.sccMembership[scc]? = some component ∧ owner ∈ component.owners
  /-- the reverse tables list the other components that depend on one, sorted and once -/
  reverseSccs : admitted.reverseSccOffsets.length = index.sccMembership.length + 1 ∧
    ∀ (scc : Nat) component, index.sccMembership[scc]? = some component →
      ∃ consumers, admitted.reverseSccs scc = some consumers ∧ consumers.Pairwise (· < ·) ∧
        ∀ other : Nat, other ∈ consumers ↔ other ≠ scc ∧
          ∃ consumer, index.sccMembership[other]? = some consumer ∧
            DependsOnScc index consumer component
  /-- the ranges split the sites by owner -/
  ownerSiteRanges : SplitsByOwner index.ownerPartition index.ownerSites admitted.ownerSiteRanges

/-- Rows that pass the check of edges and consumers. -/
theorem admitRows_eq_ok {partition : List ReplayOwner} {rootSlots : List ReplayRootSlot}
    {edges : List ReplayReverseEdge} {consumers : List ReplayRootConsumer} :
    admitRows partition rootSlots edges consumers = .ok () ↔
      CanonicalRows partition edges consumers ∧
        ∀ row ∈ consumers, row.name ∈ rootSlots.map (fun root => root.name) := by
  rw [admitRows, rejectIf_eq_ok]
  simp only [not_or, not_exists, not_and, not_not]
  constructor
  · rintro ⟨hedges, hedge, hconsumers, hrow⟩
    exact ⟨⟨isChain_iff_pairwise.mp hedges, fun edge hin => hedge edge hin,
      isChain_iff_pairwise.mp hconsumers, fun row hin => (hrow row hin).1⟩,
      fun row hin => (hrow row hin).2⟩
  · rintro ⟨⟨hedges, hedge, hconsumers, hrow⟩, hname⟩
    exact ⟨isChain_iff_pairwise.mpr hedges, fun edge hin => hedge edge hin,
      isChain_iff_pairwise.mpr hconsumers, fun row hin => ⟨hrow row hin, hname row hin⟩⟩

variable {limits : ReplayIndexAdmissionLimits}

theorem admitOwnerPartition_ok {partition : List ReplayOwner} {count : Nat}
    (h : admitOwnerPartition limits partition = .ok count) :
    partition.Pairwise (· < ·) := by
  unfold admitOwnerPartition at h
  split at h
  · cases h
  · obtain ⟨_, h⟩ := rejectIf_bind_eq_ok.mp h
    obtain ⟨expected, _, h⟩ := bind_eq_ok.mp h
    obtain ⟨hcheck, _⟩ := rejectIf_bind_eq_ok.mp h
    simp only [not_or, not_not] at hcheck
    exact isChain_iff_pairwise.mp hcheck.2.1

/-- The tables of an admitted index as the checks derive them. -/
abbrev AdmittedCollisionReplayIndex.sccTables (admitted : AdmittedCollisionReplayIndex) :
    SccTables :=
  ⟨admitted.ownerToScc, admitted.sccOwnerRanges, admitted.sccOwners⟩

abbrev AdmittedCollisionReplayIndex.reverseTables (admitted : AdmittedCollisionReplayIndex) :
    ReverseSccTables :=
  ⟨admitted.reverseSccOffsets, admitted.reverseSccEdges, []⟩

/-- The component of an owner in an admitted index. -/
abbrev AdmittedCollisionReplayIndex.scc (admitted : AdmittedCollisionReplayIndex) :
    ReplayOwner → Nat :=
  sccOf admitted.ownerPartition admitted.ownerToScc

/-- What the checks say about an admitted index. -/
structure Admission (index : CollisionReplayIndex) (admitted : AdmittedCollisionReplayIndex) :
    Prop where
  ownerPartition : admitted.ownerPartition = index.ownerPartition
  reverseEdges : admitted.reverseEdges = index.reverseEdges
  sccMembership : admitted.sccMembership = index.sccMembership
  partition_sorted : admitted.ownerPartition.Pairwise (· < ·)
  rows : CanonicalRows index.ownerPartition index.reverseEdges index.rootSlotConsumers
  tables : SccPartition admitted.ownerPartition admitted.sccMembership admitted.sccTables
  edges : EdgesForward admitted.ownerPartition admitted.scc admitted.reverseEdges
  reverse : ListsConsumers (componentEdges admitted.scc admitted.reverseEdges)
    admitted.sccMembership.length admitted.reverseTables
  components : DependencyFirst (DependsOn admitted.reverseEdges) (· ∈ admitted.ownerPartition)
    (memberLists admitted.sccMembership)
  sites : SplitsByOwner index.ownerPartition index.ownerSites admitted.ownerSiteRanges

/-- An accepted index passed every check. -/
theorem admit_ok {sha256 : List UInt8 → Digest} {index : CollisionReplayIndex}
    {expected : Option Digest}
    {admitted : AdmittedCollisionReplayIndex}
    (h : admitGeneratedCollisionReplayIndex sha256 index limits expected = .ok admitted) :
    Admission index admitted := by
  unfold admitGeneratedCollisionReplayIndex at h
  obtain ⟨count, hpartition, h⟩ := bind_eq_ok.mp h
  obtain ⟨_, _, h⟩ := bind_eq_ok.mp h
  obtain ⟨siteRanges, hsites, h⟩ := bind_eq_ok.mp h
  obtain ⟨_, hrows, h⟩ := bind_eq_ok.mp h
  obtain ⟨_, _, h⟩ := bind_eq_ok.mp h
  obtain ⟨lookup, _, h⟩ := bind_eq_ok.mp h
  obtain ⟨tables, htables, h⟩ := bind_eq_ok.mp h
  dsimp only at h
  obtain ⟨hforward, h⟩ := rejectIf_bind_eq_ok.mp h
  obtain ⟨reverse, hreverse, h⟩ := bind_eq_ok.mp h
  obtain ⟨_, hconnected, h⟩ := bind_eq_ok.mp h
  obtain ⟨_, hready, h⟩ := bind_eq_ok.mp h
  obtain ⟨_, _, h⟩ := bind_eq_ok.mp h
  obtain ⟨baselines, _, h⟩ := bind_eq_ok.mp h
  obtain ⟨_, h⟩ := rejectIf_bind_eq_ok.mp h
  obtain ⟨_, h⟩ := rejectIf_bind_eq_ok.mp h
  cases h
  have hsorted := admitOwnerPartition_ok hpartition
  have hnodup : index.ownerPartition.Nodup := hsorted.imp ne_of_lt
  obtain ⟨hcanonical, _⟩ := admitRows_eq_ok.mp hrows
  have hscc := sccTables_ok hnodup htables
  have hedges : EdgesForward index.ownerPartition (sccOf index.ownerPartition tables.ownerToScc)
      index.reverseEdges := by
    refine ⟨fun consumer dependency hedge => (hcanonical.edge_mem _ hedge).2.2,
      fun consumer dependency hedge => (hcanonical.edge_mem _ hedge).2.1, ?_⟩
    intro consumer dependency hedge
    by_contra hlt
    exact hforward ⟨_, hedge, Nat.lt_of_not_le hlt⟩
  have hlists := reverseSccTables_ok hreverse
  have hnonempty : ∀ component ∈ index.sccMembership, component.owners ≠ [] := by
    intro component hcomponent
    obtain ⟨position, hposition⟩ := mem_iff_getElem?.mp hcomponent
    exact (hscc.valid position component hposition).nonempty
  have hnext := admitReadyOrder_ok hlists (forwardRows_componentEdges hscc hedges) hnonempty hready
  exact ⟨rfl, rfl, rfl, hsorted, hcanonical, hscc, hedges,
    ⟨hlists.offsets, hlists.flatten, hlists.edges, hlists.consumers⟩,
    dependencyFirst_of_admitted hscc hedges (admitConnected_eq_ok.mp hconnected) hnext,
    ownerSiteRanges_ok hsites hnodup⟩

namespace Admission

variable {index : CollisionReplayIndex} {admitted : AdmittedCollisionReplayIndex}

/-- The accessor finds the consumers of every component. -/
theorem reverseSccs_eq (h : Admission index admitted) {scc : Nat}
    (hscc : scc < admitted.sccMembership.length) :
    admitted.reverseSccs scc = some (admitted.reverseTables.consumers scc) := by
  have hruns : (consumerRuns (range admitted.sccMembership.length)
      (componentEdges admitted.scc admitted.reverseEdges)).length =
        admitted.sccMembership.length := by
    simp [consumerRuns]
  have hedges := congrArg length h.reverse.flatten
  obtain ⟨start, stop, hstart, hstop, hle, hbound⟩ := exists_offsets
    (consumerRuns (range admitted.sccMembership.length)
      (componentEdges admitted.scc admitted.reverseEdges)) (hruns.symm ▸ hscc)
  rw [← h.reverse.offsets] at hstart hstop
  rw [← hedges] at hbound
  unfold AdmittedCollisionReplayIndex.reverseSccs ReverseSccTables.consumers
  rw [getD_eq_getElem?_getD, getD_eq_getElem?_getD]
  change (do
    let start ← admitted.reverseTables.offsets[scc]?
    let stop ← admitted.reverseTables.offsets[scc + 1]?
    if start ≤ stop ∧ stop ≤ admitted.reverseSccEdges.length then
      some ((admitted.reverseSccEdges.take stop).drop start)
    else none) = _
  rw [hstart, hstop]
  exact if_pos ⟨hle, hbound⟩

theorem getElem?_ownerToScc_eq (h : Admission index admitted) {position : Nat} {owner : ReplayOwner}
    (howner : admitted.ownerPartition[position]? = some owner) :
    admitted.ownerToScc[position]? = some (admitted.scc owner) :=
  getElem?_ownerToScc (h.partition_sorted.imp ne_of_lt) h.tables.length howner

/-- The consumers of a component are the other components that depend on it. -/
theorem mem_consumers_iff (h : Admission index admitted) {scc : Nat} {component : ReplayScc}
    (hscc : admitted.sccMembership[scc]? = some component) (other : Nat) :
    other ∈ admitted.reverseTables.consumers scc ↔ other ≠ scc ∧
      ∃ consumer, admitted.sccMembership[other]? = some consumer ∧
        DependsOnScc index consumer component := by
  have hlt := (List.getElem?_eq_some_iff.mp hscc).1
  have hmembers : ∀ {position : Nat} {component : ReplayScc},
      admitted.sccMembership[position]? = some component → ∀ owner,
      owner ∈ component.owners ↔ owner ∈ admitted.ownerPartition ∧
        admitted.scc owner = position := by
    intro position component hposition owner
    refine h.tables.mem_owners_iff ?_
    rw [getElem?_map, hposition]
    rfl
  rw [mem_consumers h.reverse hlt, mem_componentEdges]
  refine and_congr ne_comm ⟨?_, ?_⟩
  · rintro ⟨owner, target, hedge, htarget, howner⟩
    have hin := h.edges.consumer_mem owner target hedge
    obtain ⟨consumer, hconsumer, hmem⟩ := h.tables.exists_component hin
    rw [h.reverseEdges] at hedge
    refine ⟨consumer, ?_, owner, hmem, target, (hmembers hscc target).mpr ⟨?_, htarget⟩, hedge⟩
    · rw [← howner]
      exact hconsumer
    · rw [← h.reverseEdges] at hedge
      exact h.edges.dependency_mem owner target hedge
  · rintro ⟨consumer, hconsumer, owner, howner, target, htarget, hedge⟩
    rw [← h.reverseEdges] at hedge
    exact ⟨owner, target, hedge, ((hmembers hscc target).mp htarget).2,
      ((hmembers hconsumer owner).mp howner).2⟩

end Admission

/-- **Accepted tables are exact.** -/
theorem admit_exact {sha256 : List UInt8 → Digest} {index : CollisionReplayIndex}
    {expected : Option Digest}
    {admitted : AdmittedCollisionReplayIndex}
    (h : admitGeneratedCollisionReplayIndex sha256 index limits expected = .ok admitted) :
    AdmittedExactly index admitted := by
  have hadmitted := admit_ok h
  have hmem : ∀ edge ∈ index.reverseEdges,
      edge.dependency ∈ index.ownerPartition ∧ edge.consumer ∈ index.ownerPartition :=
    fun edge hedge => (hadmitted.rows.edge_mem edge hedge).2
  have hcomponents := hadmitted.components
  rw [hadmitted.reverseEdges, hadmitted.ownerPartition, hadmitted.sccMembership] at hcomponents
  have htables := hadmitted.tables
  refine ⟨?_, ⟨?_, ?_⟩, ⟨?_, ?_⟩, hadmitted.sites⟩
  · refine replaySccs_eq_ok.mpr ⟨hcomponents.unique (dependencyFirst_dependencyGraph hmem), ?_⟩
    rw [← hadmitted.sccMembership]
    exact fun position scc hscc => (htables.valid position scc hscc).ordinal
  · rw [← hadmitted.ownerPartition]
    exact htables.length
  · intro position owner howner
    rw [← hadmitted.ownerPartition] at howner
    obtain ⟨component, hcomponent, hin⟩ := htables.exists_component (mem_of_getElem? howner)
    rw [hadmitted.sccMembership] at hcomponent
    exact ⟨_, component, hadmitted.getElem?_ownerToScc_eq howner, hcomponent, hin⟩
  · have hoffsets := congrArg length hadmitted.reverse.offsets
    rw [length_offsetsFrom, consumerRuns, length_map, length_runsOf, length_range,
      hadmitted.sccMembership] at hoffsets
    exact hoffsets
  · intro scc component hscc
    rw [← hadmitted.sccMembership] at hscc
    have hlt := (List.getElem?_eq_some_iff.mp hscc).1
    refine ⟨_, hadmitted.reverseSccs_eq hlt, pairwise_consumers hadmitted.reverse
      (forwardRows_componentEdges htables hadmitted.edges) hlt, fun other => ?_⟩
    rw [hadmitted.mem_consumers_iff hscc, hadmitted.sccMembership]

end Typokat.Replay
