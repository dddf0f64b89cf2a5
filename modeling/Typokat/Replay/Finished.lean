import Typokat.Replay.Trace

/-!
# Finished Tables (`checker/replay_index.rs`)

What the generator guarantees about an index that `finish` returns.

## Main Results

- `sortDistinct_ok` : sorted rows with different keys
- `completeRootSlots_ok` : the root slots with their placeholders
- `finish_ok` : the rows of a finished index
-/

namespace Typokat.Replay

open Check Lib List

/-! ## §1 Sorted rows -/

theorem firstAdjacentDuplicate_eq_none {A K : Type} [DecidableEq K] {key : A → K} {rows : List A} :
    firstAdjacentDuplicate key rows = none ↔
      rows.IsChain (fun first second => key first ≠ key second) := by
  fun_induction firstAdjacentDuplicate key rows with
  | case1 => simp
  | case2 => simp
  | case3 first second rest heq => simp [heq]
  | case4 first second rest hne ih => simp [hne, ih]

/-- Sorted rows without equal neighbours are strictly sorted. -/
theorem pairwise_lt_of_isChain {A K : Type} [LinearOrder K] {key : A → K} {rows : List A}
    (hsorted : rows.Pairwise (fun first second => key first ≤ key second))
    (hchain : rows.IsChain (fun first second => key first ≠ key second)) :
    rows.Pairwise (fun first second => key first < key second) := by
  have htrans : IsTrans A (fun first second => key first < key second) :=
    ⟨fun _ _ _ => lt_trans⟩
  rw [← isChain_iff_pairwise]
  have hle := isChain_iff_getElem.mp hsorted.isChain
  have hne := isChain_iff_getElem.mp hchain
  exact isChain_iff_getElem.mpr (fun index hindex =>
    lt_of_le_of_ne (hle index hindex) (hne index hindex))

theorem pairwise_insertionSort_key {A K : Type} [LinearOrder K] (key : A → K) (rows : List A) :
    (rows.insertionSort (fun first second => key first ≤ key second)).Pairwise
      (fun first second => key first ≤ key second) := by
  have htotal : Std.Total (fun first second : A => key first ≤ key second) :=
    ⟨fun first second => le_total (key first) (key second)⟩
  have htrans : IsTrans A (fun first second => key first ≤ key second) :=
    ⟨fun _ _ _ => le_trans⟩
  exact pairwise_insertionSort _ rows

theorem sortDistinct_ok {A K : Type} [LinearOrder K] {key : A → K}
    {duplicate : A → ReplayIndexGenerationError} {rows sorted : List A}
    (h : sortDistinct key duplicate rows = .ok sorted) :
    sorted.Perm rows ∧ sorted.Pairwise (fun first second => key first < key second) := by
  unfold sortDistinct at h
  dsimp only at h
  split at h
  · cases h
  · rename_i hnone
    cases h
    exact ⟨perm_insertionSort _ rows, pairwise_lt_of_isChain
      (pairwise_insertionSort_key key rows) (firstAdjacentDuplicate_eq_none.mp hnone)⟩

/-- No row is marked: none is bad, and each is greater than the one before. -/
theorem pairwise_of_unmarked {A : Type} [LinearOrder A] {rows : List A} (bad : A → Bool)
    (h : (rows.zipIdx.filter (fun entry => bad entry.1 || (entry.2 ≠ 0 &&
      rows[entry.2 - 1]?.any (fun previous => entry.1 ≤ previous)))).length = 0) :
    (∀ row ∈ rows, bad row = false) ∧ rows.Pairwise (· < ·) := by
  rw [length_eq_zero_iff, filter_eq_nil_iff] at h
  have hentry : ∀ (index : Nat) row, rows[index]? = some row → (row, index) ∈ rows.zipIdx := by
    intro index row hrow
    refine mem_of_getElem? (i := index) ?_
    rw [getElem?_zipIdx, hrow]
    simp
  constructor
  · intro row hrow
    obtain ⟨index, hindex⟩ := mem_iff_getElem?.mp hrow
    have hmark := h _ (hentry index row hindex)
    rw [Bool.not_eq_true, Bool.or_eq_false_iff] at hmark
    exact hmark.1
  · rw [← isChain_iff_pairwise, isChain_iff_getElem]
    intro index hindex
    have hmark := h _ (hentry (index + 1) rows[index + 1] (getElem?_eq_getElem hindex))
    have hprevious : rows[index]? = some rows[index] :=
      getElem?_eq_getElem (Nat.lt_of_succ_lt hindex)
    simp only [Nat.add_sub_cancel, hprevious, Option.any_some] at hmark
    have hless : bad rows[index + 1] = false ∧ rows[index] < rows[index + 1] := by
      simpa using hmark
    exact hless.2

/-- Rows that pass `validate_edge_rows`. -/
structure CanonicalRows (partition : List ReplayOwner) (edges : List ReplayReverseEdge)
    (consumers : List ReplayRootConsumer) : Prop where
  edges_sorted : edges.Pairwise (· < ·)
  edge_mem : ∀ edge ∈ edges, edge.dependency ≠ edge.consumer ∧ edge.dependency ∈ partition ∧
    edge.consumer ∈ partition
  consumers_sorted : consumers.Pairwise (· < ·)
  consumer_mem : ∀ row ∈ consumers, row.consumer ∈ partition

variable {consumers : List ReplayRootConsumer}

theorem validateEdgeRows_eq_zero {partition : List ReplayOwner} {edges : List ReplayReverseEdge}
    (h : validateEdgeRows partition edges consumers = 0) :
    CanonicalRows partition edges consumers := by
  obtain ⟨hedges, hconsumers⟩ := Nat.add_eq_zero_iff.mp h
  obtain ⟨hedge, hedgesSorted⟩ := pairwise_of_unmarked (fun edge : ReplayReverseEdge =>
    edge.dependency = edge.consumer || edge.dependency ∉ partition
      || edge.consumer ∉ partition) hedges
  obtain ⟨hrow, hconsumersSorted⟩ := pairwise_of_unmarked (fun row : ReplayRootConsumer =>
    row.name.isEmpty || row.consumer ∉ partition) hconsumers
  refine ⟨hedgesSorted, fun edge hin => ?_, hconsumersSorted, fun row hin => ?_⟩
  · simpa [Bool.or_eq_false_iff, and_assoc] using hedge edge hin
  · have hpass := hrow row hin
    simp only [Bool.or_eq_false_iff] at hpass
    simpa using hpass.2

/-! ## §2 Root slots -/

theorem sortDedup_eq_dedup {A : Type} [LinearOrder A] (rows : List A) :
    sortDedup rows = (rows.insertionSort (· ≤ ·)).dedup :=
  (pairwise_insertionSort (· ≤ ·) rows).destutter_eq_dedup

theorem mem_sortDedup {A : Type} [LinearOrder A] {rows : List A} {row : A} :
    row ∈ sortDedup rows ↔ row ∈ rows := by
  rw [sortDedup_eq_dedup, mem_dedup, mem_insertionSort]

theorem pairwise_sortDedup {A : Type} [LinearOrder A] (rows : List A) :
    (sortDedup rows).Pairwise (· < ·) := by
  rw [sortDedup_eq_dedup]
  have hsorted := (pairwise_insertionSort (· ≤ ·) rows).sublist (dedup_sublist _)
  exact (hsorted.and (nodup_dedup _)).imp (fun h => lt_of_le_of_ne h.1 h.2)

theorem length_sortDedup_le {A : Type} [LinearOrder A] (rows : List A) :
    (sortDedup rows).length ≤ rows.length := by
  rw [sortDedup_eq_dedup, ← length_insertionSort (· ≤ ·) rows]
  exact (dedup_sublist _).length_le

variable {rootSlots : List ReplayRootSlot}

theorem mem_placeholderNames {name : String} :
    name ∈ placeholderNames rootSlots consumers ↔
      name ∈ consumers.map (fun consumer => consumer.name) ∧
        name ∉ rootSlots.map (fun root => root.name) := by
  rw [placeholderNames, mem_filter, decide_eq_true_eq]
  exact and_congr_left' mem_sortDedup

/-- Root slots of a table: the published ones and placeholders for the other consumed names. -/
structure CompleteSlots (rootSlots : List ReplayRootSlot) (consumers : List ReplayRootConsumer)
    (complete : List ReplayRootSlot) : Prop where
  sorted : complete.Pairwise (fun first second => first.name < second.name)
  mem_iff : ∀ root, root ∈ complete ↔ root ∈ rootSlots ∨
    ∃ name, name ∈ consumers.map (fun consumer => consumer.name) ∧
      name ∉ rootSlots.map (fun root => root.name) ∧ root = { name := name }

theorem completeRootSlots_ok {rootSlots complete : List ReplayRootSlot}
    (h : completeRootSlots rootSlots consumers = .ok complete) :
    CompleteSlots rootSlots consumers complete := by
  obtain ⟨hperm, hsorted⟩ := sortDistinct_ok h
  refine ⟨hsorted, fun root => ?_⟩
  rw [hperm.mem_iff, mem_append, mem_map]
  refine or_congr Iff.rfl ⟨?_, ?_⟩
  · rintro ⟨name, hname, rfl⟩
    obtain ⟨hconsumed, hout⟩ := mem_placeholderNames.mp hname
    exact ⟨name, hconsumed, hout, rfl⟩
  · rintro ⟨name, hconsumed, hout, rfl⟩
    exact ⟨name, mem_placeholderNames.mpr ⟨hconsumed, hout⟩, rfl⟩

/-- Every consumed name has a root slot. -/
theorem CompleteSlots.consumed {rootSlots complete : List ReplayRootSlot}
    (h : CompleteSlots rootSlots consumers complete)
    {row : ReplayRootConsumer} (hrow : row ∈ consumers) :
    row.name ∈ complete.map (fun root => root.name) := by
  by_cases hin : row.name ∈ rootSlots.map (fun root => root.name)
  · obtain ⟨root, hroot, heq⟩ := mem_map.mp hin
    exact mem_map.mpr ⟨root, (h.mem_iff root).mpr (.inl hroot), heq⟩
  · refine mem_map.mpr ⟨{ name := row.name }, (h.mem_iff _).mpr (.inr ?_), rfl⟩
    exact ⟨row.name, mem_map_of_mem hrow, hin, rfl⟩

/-! ## §3 The graph -/

section Graph

variable {partition : List ReplayOwner} {edges : List ReplayReverseEdge}

theorem targets_foldl_insert_empty (owners : List ReplayOwner) (owner : ReplayOwner) :
    DependencyGraph.targets
      (owners.foldl (fun graph owner => graph.insert owner ∅) ∅ : DependencyGraph ReplayOwner)
        owner = [] := by
  have hall : ∀ (graph : DependencyGraph ReplayOwner), (∀ owner, graph.targets owner = []) →
      ∀ owner, DependencyGraph.targets
        (owners.foldl (fun graph owner => graph.insert owner ∅) graph) owner = [] := by
    induction owners with
    | nil => exact fun graph hgraph => hgraph
    | cons first owners ih =>
      intro graph hgraph
      refine ih _ (fun owner => ?_)
      unfold DependencyGraph.targets
      rw [Std.TreeMap.getElem?_insert]
      by_cases heq : compare first owner = .eq
      · rw [if_pos heq]
        rfl
      · rw [if_neg heq]
        exact hgraph owner
  exact hall ∅ (fun owner => by simp [DependencyGraph.targets]) owner

theorem mem_foldl_insert_empty (owners : List ReplayOwner) (owner : ReplayOwner) :
    owner ∈ (owners.foldl (fun graph owner => graph.insert owner ∅) ∅ :
      DependencyGraph ReplayOwner) ↔ owner ∈ owners := by
  have hcollects := (foldl_collects (f := fun (graph : DependencyGraph ReplayOwner) owner =>
      graph.insert owner ∅) (fun _ => True) (fun graph => owner ∈ graph) (fun entry => owner = entry)
    owners ∅ trivial (fun entry _ graph _ => ⟨trivial, by
      rw [Std.TreeMap.mem_insert, Std.LawfulEqCmp.compare_eq_iff_eq, or_comm, eq_comm]⟩)).2
  rw [hcollects]
  simp

/-- The graph has the recorded dependencies as its edges. -/
theorem edge_dependencyGraph {consumer dependency : ReplayOwner} :
    (dependencyGraph partition edges).Edge consumer dependency ↔
      DependsOn edges consumer dependency := by
  have hcollects := (foldl_collects (f := fun (graph : DependencyGraph ReplayOwner)
      (edge : ReplayReverseEdge) =>
      graph.insert edge.consumer ((graph.getD edge.consumer ∅).insert edge.dependency))
    (fun _ => True) (fun graph => dependency ∈ graph.targets consumer)
    (fun edge => consumer = edge.consumer ∧ dependency = edge.dependency) edges
    (partition.foldl (fun graph owner => graph.insert owner ∅) ∅) trivial
    (fun edge _ graph _ => ⟨trivial, mem_targets_insert⟩)).2
  rw [DependencyGraph.Edge, dependencyGraph, hcollects, targets_foldl_insert_empty]
  constructor
  · rintro (hin | ⟨edge, hedge, rfl, rfl⟩)
    · exact absurd hin not_mem_nil
    · exact hedge
  · exact fun hedge => .inr ⟨_, hedge, rfl, rfl⟩

/-- The nodes of the graph are the owners. -/
theorem isNode_dependencyGraph
    (hmem : ∀ edge ∈ edges, edge.dependency ∈ partition ∧ edge.consumer ∈ partition)
    {owner : ReplayOwner} :
    (dependencyGraph partition edges).IsNode owner ↔ owner ∈ partition := by
  have hkeys := (foldl_collects (f := fun (graph : DependencyGraph ReplayOwner)
      (edge : ReplayReverseEdge) =>
      graph.insert edge.consumer ((graph.getD edge.consumer ∅).insert edge.dependency))
    (fun _ => True) (fun graph => owner ∈ graph) (fun edge => owner = edge.consumer) edges
    (partition.foldl (fun graph owner => graph.insert owner ∅) ∅) trivial
    (fun edge _ graph _ => ⟨trivial, by
      rw [Std.TreeMap.mem_insert, Std.LawfulEqCmp.compare_eq_iff_eq, or_comm, eq_comm]⟩)).2
  rw [DependencyGraph.IsNode, dependencyGraph, hkeys, mem_foldl_insert_empty]
  constructor
  · rintro ((hin | ⟨edge, hedge, rfl⟩) | ⟨key, hedge⟩)
    · exact hin
    · exact (hmem edge hedge).2
    · exact (hmem _ (edge_dependencyGraph.mp hedge)).1
  · exact fun hin => .inl (.inl hin)

/-- **The components that the generator writes** are in dependency order. -/
theorem dependencyFirst_dependencyGraph
    (hmem : ∀ edge ∈ edges, edge.dependency ∈ partition ∧ edge.consumer ∈ partition) :
    DependencyFirst (DependsOn edges) (· ∈ partition)
      (dependencyFirstSccs (dependencyGraph partition edges)) := by
  have hcanonical := dependencyFirstSccs_canonical (dependencyGraph partition edges)
  have hedge : (dependencyGraph partition edges).Edge = DependsOn edges := by
    funext consumer dependency
    exact propext edge_dependencyGraph
  have hnode : (dependencyGraph partition edges).IsNode = (· ∈ partition) := by
    funext owner
    exact propext (isNode_dependencyGraph hmem)
  rwa [hedge, hnode] at hcanonical

end Graph

/-- Components get their positions as ordinals. -/
theorem replaySccs_eq_ok {components : List (List ReplayOwner)} {sccs : List ReplayScc} :
    replaySccs components = .ok sccs ↔ sccs.map (fun scc => scc.owners) = components ∧
      ∀ (index : Nat) scc, sccs[index]? = some scc → scc.replayOrdinal.toNat = index := by
  -- for a tail of the components, with the position it starts at
  have hall : ∀ (start : Nat) (components : List (List ReplayOwner)) (sccs : List ReplayScc),
      (components.zipIdx start).mapM (fun entry => if entry.2 < 2 ^ 32 then
        Except.ok (⟨UInt32.ofNat entry.2, entry.1⟩ : ReplayScc)
        else .error ReplayIndexGenerationError.integerOverflow) = .ok sccs ↔
      sccs.map (fun scc => scc.owners) = components ∧
        ∀ (index : Nat) scc, sccs[index]? = some scc →
          scc.replayOrdinal.toNat = start + index := by
    intro start components
    induction components generalizing start with
    | nil =>
      intro sccs
      rw [zipIdx_nil, mapM_nil, map_eq_nil_iff]
      constructor
      · intro h
        cases h
        exact ⟨rfl, by simp⟩
      · rintro ⟨rfl, _⟩
        rfl
    | cons component components ih =>
      intro sccs
      rw [zipIdx_cons, mapM_cons, bind_eq_ok]
      constructor
      · rintro ⟨first, hfirst, h⟩
        obtain ⟨rest, hrest, h⟩ := bind_eq_ok.mp h
        cases h
        obtain ⟨hlists, hordinals⟩ := (ih (start + 1) rest).mp hrest
        split at hfirst
        · rename_i hbound
          cases hfirst
          refine ⟨by rw [map_cons, hlists], fun index scc hscc => ?_⟩
          cases index with
          | zero =>
            cases hscc
            exact UInt32.toNat_ofNat_of_lt' hbound
          | succ index =>
            rw [hordinals index scc hscc]
            omega
        · cases hfirst
      · rintro ⟨hlists, hordinals⟩
        obtain ⟨first, rest, rfl, rfl, rfl⟩ := map_eq_cons_iff.mp hlists
        have hfirst : first.replayOrdinal.toNat = start := hordinals 0 first rfl
        have hbound : start < 2 ^ 32 := hfirst ▸ first.replayOrdinal.toNat_lt
        refine ⟨first, ?_, bind_eq_ok.mpr ⟨rest, (ih (start + 1) rest).mpr ⟨rfl, ?_⟩, rfl⟩⟩
        · have hordinal : UInt32.ofNat start = first.replayOrdinal := by
            rw [← hfirst, UInt32.ofNat_toNat]
          rw [if_pos hbound, hordinal]
        · intro index scc hscc
          rw [hordinals (index + 1) scc hscc]
          omega
  have hstart := hall 0 components sccs
  simp only [Nat.zero_add] at hstart
  exact hstart

/-! ## §4 The index -/

theorem ReplayOwnerSite.sortKey_injective : Function.Injective ReplayOwnerSite.sortKey := by
  rintro ⟨owner, file, ⟨start, stop⟩⟩ ⟨owner', file', ⟨start', stop'⟩⟩ h
  simp only [ReplayOwnerSite.sortKey, EmbeddingLike.apply_eq_iff_eq, Prod.mk.injEq,
    UInt64.toNat_inj, UInt32.toNat_inj] at h
  obtain ⟨rfl, rfl, rfl, rfl⟩ := h
  rfl

/-- Sites of an index: sorted and valid, and some for every owner. -/
structure CanonicalSites (partition : List ReplayOwner) (sites : List ReplayOwnerSite) :
    Prop where
  sorted : sites.Pairwise (fun first second => first.sortKey < second.sortKey)
  valid : ∀ site ∈ sites, site.owner ∈ partition ∧ site.span.start ≤ site.span.stop
  owned : ∀ owner ∈ partition, ∃ site ∈ sites, site.owner = owner

theorem saturatingAdd_eq_zero (first : UInt64) (second : Nat) (h : saturatingAdd first second = 0) :
    first = 0 ∧ second = 0 := by
  have hnat := congrArg UInt64.toNat h
  have hbound := first.toNat_lt
  rw [saturatingAdd, UInt64.toNat_ofNat_of_lt' (by change _ < 2 ^ 64; omega)] at hnat
  change _ = 0 at hnat
  exact ⟨UInt64.toNat_inj.mp (by change _ = 0; omega), by omega⟩

theorem indexSites_ok {partition : List ReplayOwner} {ownerSites sites : List ReplayOwnerSite}
    {invalidCount : UInt64} (h : indexSites partition ownerSites invalidCount = .ok sites) :
    sites.Perm ownerSites ∧ CanonicalSites partition sites := by
  unfold indexSites at h
  obtain ⟨hinvalid, h⟩ := rejectIf_bind_eq_ok.mp h
  rw [not_not] at hinvalid
  obtain ⟨_, hnone⟩ := saturatingAdd_eq_zero _ _ hinvalid
  split at h
  · cases h
  · rename_i hdistinct
    split at h
    · cases h
    · rename_i howned
      cases h
      refine ⟨perm_insertionSort _ ownerSites, ?_, fun site hsite => ?_, fun owner howner => ?_⟩
      · refine pairwise_lt_of_isChain (pairwise_insertionSort_key ReplayOwnerSite.sortKey _) ?_
        refine (firstAdjacentDuplicate_eq_none.mp hdistinct).imp (fun first second hne heq => ?_)
        exact hne (ReplayOwnerSite.sortKey_injective heq)
      · rw [length_eq_zero_iff, filter_eq_nil_iff] at hnone
        have hpass := hnone site hsite
        simpa using hpass
      · have hfound := find?_eq_none.mp howned owner howner
        simp only [decide_not, Bool.not_eq_true', decide_eq_false_iff_not, not_not] at hfound
        exact mem_map.mp hfound

theorem invalidRootSlot_eq_none {partition : List ReplayOwner}
    (h : invalidRootSlot partition rootSlots = none) {root : ReplayRootSlot}
    (hroot : root ∈ rootSlots) : root.name.isEmpty = false ∧
      (∀ id ∈ root.value, ReplayOwner.value id ∈ partition) ∧
      (∀ id ∈ root.ty, ReplayOwner.typeGroup id ∈ partition) ∧
      ∀ id ∈ root.namespaceId, ReplayOwner.namespace id ∈ partition := by
  have hpass := find?_eq_none.mp h root hroot
  simp only [Bool.or_eq_true, not_or, Bool.not_eq_true] at hpass
  obtain ⟨⟨⟨hname, hvalue⟩, hty⟩, hnamespace⟩ := hpass
  refine ⟨hname, fun id hid => ?_, fun id hid => ?_, fun id hid => ?_⟩
  · rw [hid] at hvalue
    simpa using hvalue
  · rw [hid] at hty
    simpa using hty
  · rw [hid] at hnamespace
    simpa using hnamespace

/-- What `finish` guarantees of the index it returns. -/
structure FinishedIndex (rootSlots : List ReplayRootSlot) (ownerSites : List ReplayOwnerSite)
    (index : CollisionReplayIndex) : Prop where
  partition_sorted : index.ownerPartition.Pairwise (· < ·)
  sites_perm : index.ownerSites.Perm ownerSites
  sites : CanonicalSites index.ownerPartition index.ownerSites
  rows : CanonicalRows index.ownerPartition index.reverseEdges index.rootSlotConsumers
  slots : CompleteSlots rootSlots index.rootSlotConsumers index.rootSlots
  slot_valid : invalidRootSlot index.ownerPartition index.rootSlots = none
  sccs : ∃ components, replaySccs components = .ok index.sccMembership ∧
    DependencyFirst (DependsOn index.reverseEdges) (· ∈ index.ownerPartition) components
  statements : index.statementOwners =
    (statementPartition index.ownerPartition).map (fun key => (key, .statement key))
  baselines : index.baselineRecords.map (fun record => record.owner) = index.ownerPartition
  counters : index.unownedDemandCount = 0 ∧ index.invalidOwnerSiteCount = 0 ∧
    index.noncanonicalEdgeCount = 0 ∧ index.typedReferenceCoverageMisses = 0

/-- **A finished index is canonical.** -/
theorem finish_ok {sha256 : List UInt8 → Digest} {trace : ReplayDependencyTrace}
    {ownerPartition : List ReplayOwner}
    {ownerSites : List ReplayOwnerSite} {baselineRecords : List ReplayBaselineRecord}
    {invalidOwnerSiteCount : UInt64} {index : CollisionReplayIndex}
    (h : trace.finish sha256 ownerPartition rootSlots ownerSites baselineRecords
      invalidOwnerSiteCount = .ok index) :
    FinishedIndex rootSlots ownerSites index ∧
      index.reverseEdges = (ownerEdges (dependencyRows trace.state)).insertionSort (· ≤ ·) := by
  unfold ReplayDependencyTrace.finish at h
  obtain ⟨_, h⟩ := rejectIf_bind_eq_ok.mp h
  obtain ⟨_, h⟩ := rejectIf_bind_eq_ok.mp h
  obtain ⟨_, h⟩ := rejectIf_bind_eq_ok.mp h
  obtain ⟨_, h⟩ := rejectIf_bind_eq_ok.mp h
  obtain ⟨_, h⟩ := rejectIf_bind_eq_ok.mp h
  obtain ⟨partition, hpartition, h⟩ := bind_eq_ok.mp h
  obtain ⟨sites, hsites, h⟩ := bind_eq_ok.mp h
  obtain ⟨keys, hkeys, h⟩ := bind_eq_ok.mp h
  obtain ⟨hstatements, h⟩ := rejectIf_bind_eq_ok.mp h
  obtain ⟨baselines, hbaselines, h⟩ := bind_eq_ok.mp h
  obtain ⟨hmatch, h⟩ := rejectIf_bind_eq_ok.mp h
  split at h
  · cases h
  · obtain ⟨slots, hslots, h⟩ := bind_eq_ok.mp h
    split at h
    · cases h
    · rename_i hvalid
      obtain ⟨hcanonical, h⟩ := rejectIf_bind_eq_ok.mp h
      obtain ⟨sccs, hsccs, h⟩ := bind_eq_ok.mp h
      obtain ⟨manifest, _, h⟩ := bind_eq_ok.mp h
      cases h
      rw [not_not] at hstatements hmatch hcanonical
      have hcount := saturatingAdd_eq_zero 0 _ (by
        rw [saturatingAdd]
        simpa using hcanonical)
      have hrows := validateEdgeRows_eq_zero hcount.2
      obtain ⟨hperm, hsites⟩ := indexSites_ok hsites
      refine ⟨⟨(sortDistinct_ok hpartition).2, hperm, hsites, hrows, completeRootSlots_ok hslots,
        hvalid, ?_, ?_, hmatch, rfl, rfl, hcanonical, rfl⟩, rfl⟩
      · have hmem : ∀ edge ∈ ownerEdges (dependencyRows trace.state),
            edge.dependency ∈ partition ∧ edge.consumer ∈ partition := fun edge hedge =>
          (hrows.edge_mem edge ((mem_insertionSort _).mpr hedge)).2
        have hsame : DependsOn ((ownerEdges (dependencyRows trace.state)).insertionSort (· ≤ ·)) =
            DependsOn (ownerEdges (dependencyRows trace.state)) := by
          funext consumer dependency
          exact propext (mem_insertionSort _)
        refine ⟨_, hsccs, ?_⟩
        rw [hsame]
        exact dependencyFirst_dependencyGraph hmem
      · rw [hstatements]

end Typokat.Replay
