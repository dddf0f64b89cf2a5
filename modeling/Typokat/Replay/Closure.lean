import Typokat.Lib.Queue
import Typokat.Replay.Plan
import Typokat.Replay.AcceptedFinished

/-!
# Scheduling a Collision (`checker/replay_index.rs`, `checker/library_compiler.rs`)

What a collision affects: the sparse scheduler walks the components of an admitted index, the
private epoch walks the edge rows of a plan.

## Main Results

- `Admission.schedule_ok` : the sparse scheduler returns the owners that the seeds reach
- `mem_closeOwners` : so do the loops over the rows of a plan
- `schedulers_agree` : all of them compute the same closure
-/

namespace Typokat.Replay

open Check Lib Std.TreeSet

/-! ## §1 The sparse scheduler -/

/-- `SparseReplayScheduleError`. -/
inductive SparseReplayScheduleError
  | unknownSeed (owner : ReplayOwner)
  | missingScc (scc : Nat)
  deriving DecidableEq, Repr

/-- `SparseReplayGraphAccess`, without the hooks of the tests; `consumers` are the finitely many
ids that a row can name. -/
structure SparseReplayGraphAccess where
  ownerScc : ReplayOwner → Option Nat
  reverseSccs : Nat → Option (List Nat)
  sccOwners : Nat → Option (List ReplayOwner)
  consumers : List Nat
  mem_consumers : ∀ scc rows, reverseSccs scc = some rows → ∀ consumer ∈ rows, consumer ∈ consumers

namespace SparseReplayGraphAccess

variable (graph : SparseReplayGraphAccess)

/-- The components of the seeds. -/
def seedSccs (seeds : List ReplayOwner) :
    Except SparseReplayScheduleError (Queue Nat) :=
  seeds.foldlM (fun queue seed => match graph.ownerScc seed with
    | none => .error (.unknownSeed seed)
    | some scc => .ok (queue.push scc)) ⟨∅, []⟩

/-- The consumers of a component. -/
def consumersOf (scc : Nat) :
    Except SparseReplayScheduleError (List Nat) :=
  match graph.reverseSccs scc with
  | none => .error (.missingScc scc)
  | some rows => .ok rows

theorem mem_consumers_of_ok (scc : Nat) (rows : List Nat) (h : graph.consumersOf scc = .ok rows) :
    ∀ consumer ∈ rows, consumer ∈ graph.consumers := by
  unfold consumersOf at h
  split at h
  · cases h
  · rename_i hrows
    cases h
    exact graph.mem_consumers scc _ hrows

/-- The owners of a component. -/
def ownersOf (scc : Nat) :
    Except SparseReplayScheduleError (List ReplayOwner) :=
  match graph.sccOwners scc with
  | none => .error (.missingScc scc)
  | some owners => .ok owners

/-- `schedule_sparse_collision_closure`. -/
def scheduleSparseCollisionClosure (seeds : List ReplayOwner) :
    Except SparseReplayScheduleError (List ReplayOwner) := do
  let queue ← graph.seedSccs seeds
  let affected ← queue.tryDrain graph.consumersOf graph.consumers graph.mem_consumers_of_ok
  return (← affected.toList.mapM graph.ownersOf).flatten

end SparseReplayGraphAccess

/-- `slice.get(range)`: nothing for a range that is no part of the slice. -/
def getRange {A : Type} (rows : List A) (range : ReplayRowRange) : Option (List A) :=
  if range.start ≤ range.stop ∧ range.stop ≤ rows.length then some (range.rows rows) else none

namespace AdmittedCollisionReplayIndex

variable (admitted : AdmittedCollisionReplayIndex)

/-- `owner_scc`; the partition is sorted. -/
def ownerScc (owner : ReplayOwner) : Option Nat :=
  if owner ∈ admitted.ownerPartition then
    admitted.ownerToScc[admitted.ownerPartition.idxOf owner]?
  else none

/-- `scc_owners`. -/
def sccOwnersOf (scc : Nat) :
    Option (List ReplayOwner) := do
  getRange admitted.sccOwners (← admitted.sccOwnerRanges[scc]?)

theorem mem_reverseSccEdges (scc : Nat) (rows : List Nat) (h : admitted.reverseSccs scc = some rows) :
    ∀ consumer ∈ rows, consumer ∈ admitted.reverseSccEdges := by
  intro consumer hconsumer
  unfold reverseSccs at h
  simp only [Option.bind_eq_bind, Option.bind_eq_some_iff] at h
  obtain ⟨start, _, stop, _, h⟩ := h
  split at h
  · cases h
    exact List.mem_of_mem_take (List.mem_of_mem_drop hconsumer)
  · cases h

/-- An admitted index as the graph of the scheduler. -/
def access : SparseReplayGraphAccess where
  ownerScc := admitted.ownerScc
  reverseSccs := admitted.reverseSccs
  sccOwners := admitted.sccOwnersOf
  consumers := admitted.reverseSccEdges
  mem_consumers := admitted.mem_reverseSccEdges

end AdmittedCollisionReplayIndex

/-! ## §2 The private epoch -/

/-- `PrivateCollisionReplaySeed`. -/
structure PrivateCollisionReplaySeed where
  name : String
  value : Bool
  ty : Bool
  namespaceSlot : Bool
  globalObject : Bool
  deriving DecidableEq, Repr

/-- `PrivateCollisionEpoch`; the sources and the permit are left out. -/
structure PrivateCollisionEpoch where
  affectedOwners : Std.TreeSet ReplayOwner
  mutationOwners : Std.TreeSet ReplayOwner
  valueWinners : Std.TreeMap String ValueStorageId
  ownerSites : List CollisionReplayOwnerSite
  libraryRecordBaselines : List ReplayBaselineRecord
  completeSourceReplay : Bool
  plan : CollisionReplayPlan

inductive PrivateReplayScheduleFailure
  | mutationOwnerOutsidePlan (owner : ReplayOwner)
  | requiredSourceNotLoaded (source : Nat)
  deriving DecidableEq, Repr

/-- The owners that consume an owner. -/
def CollisionReplayPlan.consumersOf (plan : CollisionReplayPlan) (owner : ReplayOwner) :
    List ReplayOwner :=
  (plan.reverseConsumers owner).map (fun edge => edge.consumer)

theorem CollisionReplayPlan.mem_consumers_of_mem (plan : CollisionReplayPlan) (owner : ReplayOwner) :
    ∀ consumer ∈ plan.consumersOf owner,
      consumer ∈ plan.reverseEdges.map (fun edge => edge.consumer) := by
  intro consumer hconsumer
  obtain ⟨edge, hedge, rfl⟩ := List.mem_map.mp hconsumer
  exact List.mem_map_of_mem (List.mem_of_mem_take (List.mem_of_mem_drop hedge))

namespace PrivateCollisionEpoch

/-- `mutation_owner_requires_authentication`. -/
def mutationOwnerRequiresAuthentication (plan : CollisionReplayPlan) : ReplayOwner → Bool
  | .typeGroup id => (plan.prefixCardinality 6).any (fun boundary => id.toNat < boundary.toNat)
  | .namespace id => (plan.prefixCardinality 7).any (fun boundary => id.toNat < boundary.toNat)
  | .value id => (plan.prefixCardinality 8).any (fun boundary => id.toNat < boundary.toNat)
  | .class _ | .globalObject | .statement _ => true

/-- `mutation_owner_exists`. -/
def mutationOwnerExists (ownerEnds : Vector UInt64 3) : ReplayOwner → Bool
  | .typeGroup id => id.toNat < (ownerEnds.get 0).toNat
  | .value id => id.toNat < (ownerEnds.get 1).toNat
  | .namespace id => id.toNat < (ownerEnds.get 2).toNat
  | .class _ | .globalObject | .statement _ => false

/-- `close_owners`. -/
def closeOwners (plan : CollisionReplayPlan) (owners : Std.TreeSet ReplayOwner) :
    Std.TreeSet ReplayOwner :=
  (Queue.ofSet owners).drain plan.consumersOf (plan.reverseEdges.map (fun edge => edge.consumer))
    plan.mem_consumers_of_mem

/-- `owner_sites_for`. -/
def ownerSitesFor (plan : CollisionReplayPlan) (owners : Std.TreeSet ReplayOwner) :
    List CollisionReplayOwnerSite :=
  owners.toList.flatMap plan.ownerSitesFor

/-- `baselines_for`. -/
def baselinesFor (plan : CollisionReplayPlan) (owners : Std.TreeSet ReplayOwner) :
    List ReplayBaselineRecord :=
  owners.toList.flatMap plan.baselinesFor

/-- The files of the sites that are not of the global object, in order. -/
def requiredSources (ownerSites : List CollisionReplayOwnerSite) : List Nat :=
  sortDedup ((ownerSites.filter (fun site => site.owner ≠ .globalObject)).map
    (fun site => site.fileOrdinal.toNat))

/-- `reclose_after_binding`: the epoch that is left, and the result. -/
def recloseAfterBinding (epoch : PrivateCollisionEpoch) (mutationOwners : Std.TreeSet ReplayOwner)
    (ownerEnds : Vector UInt64 3) (loadedSources : List Nat) :
    PrivateCollisionEpoch × Except PrivateReplayScheduleFailure Unit :=
  let epoch := { epoch with mutationOwners }
  match epoch.mutationOwners.toList.find? (fun owner => !mutationOwnerExists ownerEnds owner
    || (mutationOwnerRequiresAuthentication epoch.plan owner
      && !epoch.plan.containsMutationOwner owner)) with
  | some owner => (epoch, .error (.mutationOwnerOutsidePlan owner))
  | none =>
    let affected := closeOwners epoch.plan
      (epoch.mutationOwners.toList.foldl Std.TreeSet.insert epoch.affectedOwners)
    let ownerSites := ownerSitesFor epoch.plan affected
    match (requiredSources ownerSites).find? (fun source => source ∉ loadedSources) with
    | some source => (epoch, .error (.requiredSourceNotLoaded source))
    | none =>
      ({ epoch with
        valueWinners := epoch.valueWinners.filter (fun _ value => .value value ∈ affected)
        libraryRecordBaselines := baselinesFor epoch.plan affected
        ownerSites
        affectedOwners := affected }, .ok ())

end PrivateCollisionEpoch

/-- What the loop over the seeds collects. -/
structure SeededOwners where
  affectedOwners : Std.TreeSet ReplayOwner
  valueWinners : Std.TreeMap String ValueStorageId

namespace CollisionReplayPlan

/-- The owners that a seed names in a plan. -/
def ownersOfSeed (plan : CollisionReplayPlan) (seed : PrivateCollisionReplaySeed)
    (root : ReplayRootSlot) : List ReplayOwner :=
  root.owners
    ++ (if seed.namespaceSlot then root.namespaceId.toList.flatMap plan.namespaceDirectOwnersOf
      else [])
    ++ (plan.rootConsumers seed.name).map (fun row => row.consumer)

/-- One turn of the loop over the seeds. -/
def addSeed (plan : CollisionReplayPlan) (seeded : SeededOwners) (seed : PrivateCollisionReplaySeed) :
    SeededOwners :=
  let seeded := if seed.globalObject then
    { seeded with affectedOwners := seeded.affectedOwners.insert .globalObject } else seeded
  match plan.rootSlot seed.name with
  | none => seeded
  | some root => {
      affectedOwners := (plan.ownersOfSeed seed root).foldl Std.TreeSet.insert seeded.affectedOwners
      valueWinners := match root.value with
        | some value =>
          if seed.value then seeded.valueWinners.insert root.name value else seeded.valueWinners
        | none => seeded.valueWinners }

/-- The loop over the seeds. -/
def seedOwners (plan : CollisionReplayPlan) (seeds : List PrivateCollisionReplaySeed) :
    SeededOwners :=
  seeds.foldl plan.addSeed ⟨∅, ∅⟩

/-- `install_private_collision_replay_with_permit`, on the epoch of the compiled library. -/
def installPrivateCollisionReplay (installed : Option PrivateCollisionEpoch)
    (plan : CollisionReplayPlan) (seeds : List PrivateCollisionReplaySeed) :
    Except String PrivateCollisionEpoch := do
  rejectIf (installed.isSome ∨ seeds = [])
    "private collision replay installs exactly once with nonempty seeds"
  let seeded := plan.seedOwners seeds
  let affectedOwners := (Queue.ofSet seeded.affectedOwners).drain plan.consumersOf
    (plan.reverseEdges.map (fun edge => edge.consumer)) plan.mem_consumers_of_mem
  return {
    affectedOwners
    mutationOwners := ∅
    valueWinners := seeded.valueWinners
    ownerSites := affectedOwners.toList.flatMap plan.ownerSitesFor
    libraryRecordBaselines := PrivateCollisionEpoch.baselinesFor plan affectedOwners
    completeSourceReplay := false
    plan }

end CollisionReplayPlan

/-! ## §3 The sparse scheduler is exact -/

/-- From a dependency to its consumers. -/
def ConsumedBy (edges : List ReplayReverseEdge) (dependency consumer : ReplayOwner) : Prop :=
  DependsOn edges consumer dependency

/-- The owners that seeds reach along the edges to consumers. -/
def Affected (edges : List ReplayReverseEdge) (seeds : ReplayOwner → Prop) (owner : ReplayOwner) :
    Prop :=
  ReachedFrom (ConsumedBy edges) seeds owner

section Sparse

variable {index : CollisionReplayIndex} {admitted : AdmittedCollisionReplayIndex}

theorem Admission.ownerScc_eq (h : Admission index admitted) {owner : ReplayOwner}
    (howner : owner ∈ admitted.ownerPartition) :
    admitted.ownerScc owner = some (admitted.scc owner) := by
  rw [AdmittedCollisionReplayIndex.ownerScc, if_pos howner]
  exact h.getElem?_ownerToScc_eq (List.getElem?_idxOf howner)

theorem Admission.consumersOf_eq (h : Admission index admitted) {scc : Nat}
    (hscc : scc < admitted.sccMembership.length) :
    admitted.access.consumersOf scc = .ok (admitted.reverseTables.consumers scc) := by
  unfold SparseReplayGraphAccess.consumersOf
  have hrows : admitted.access.reverseSccs scc = some (admitted.reverseTables.consumers scc) :=
    h.reverseSccs_eq hscc
  rw [hrows]

/-- The owner table lists the components one behind the other. -/
theorem Admission.ownersOf_eq (h : Admission index admitted) {scc : Nat} {component : ReplayScc}
    (hscc : admitted.sccMembership[scc]? = some component) :
    admitted.access.ownersOf scc = .ok component.owners := by
  have hlt := (List.getElem?_eq_some_iff.mp hscc).1
  have hmembers : (memberLists admitted.sccMembership)[scc]? = some component.owners := by
    rw [List.getElem?_map, hscc]
    rfl
  have hranges : admitted.sccOwnerRanges = rangesFrom 0 (memberLists admitted.sccMembership) :=
    h.tables.ranges
  have howners : admitted.sccOwners = (memberLists admitted.sccMembership).flatten :=
    h.tables.owners
  obtain ⟨range, hrange, hle, hbound⟩ : ∃ range, admitted.sccOwnerRanges[scc]? = some range ∧
      range.start ≤ range.stop ∧ range.stop ≤ admitted.sccOwners.length := by
    obtain ⟨start, stop, hstart, hstop, hle, hbound⟩ :=
      exists_offsets (memberLists admitted.sccMembership) (List.length_map _ ▸ hlt)
    refine ⟨⟨start, stop⟩, ?_, hle, howners ▸ hbound⟩
    rw [hranges, rangesFrom, List.getElem?_zipWith, List.getElem?_tail, hstart, hstop]
  have hfound : admitted.access.sccOwners scc = some component.owners := by
    change (admitted.sccOwnerRanges[scc]? >>= fun range => getRange admitted.sccOwners range) = _
    rw [hrange]
    change getRange admitted.sccOwners range = _
    rw [hranges] at hrange
    rw [getRange, if_pos ⟨hle, hbound⟩, howners, rows_rangesFrom _ hrange hmembers]
  unfold SparseReplayGraphAccess.ownersOf
  rw [hfound]

/-- From a component to the components that consume it. -/
def AdmittedCollisionReplayIndex.SccEdge (admitted : AdmittedCollisionReplayIndex)
    (dependency consumer : Nat) : Prop :=
  dependency < admitted.sccMembership.length ∧
    consumer ∈ admitted.reverseTables.consumers dependency

theorem Admission.sccEdge_iff (h : Admission index admitted) {dependency consumer : Nat} :
    admitted.SccEdge dependency consumer ↔ dependency ≠ consumer ∧
      ∃ owner target, DependsOn index.reverseEdges owner target ∧
        admitted.scc target = dependency ∧ admitted.scc owner = consumer := by
  constructor
  · rintro ⟨hlt, hconsumer⟩
    have hrow := (mem_consumers h.reverse hlt).mp hconsumer
    rw [mem_componentEdges, h.reverseEdges] at hrow
    exact hrow
  · rintro ⟨hne, owner, target, hedge, rfl, rfl⟩
    rw [← h.reverseEdges] at hedge
    have hlt := h.tables.sccOf_lt (h.edges.dependency_mem owner target hedge)
    exact ⟨hlt, (mem_consumers h.reverse hlt).mpr
      (mem_componentEdges.mpr ⟨hne, owner, target, hedge, rfl, rfl⟩)⟩

/-- Owners of one component reach each other. -/
theorem Admission.reach_of_scc_eq (h : Admission index admitted) {owner other : ReplayOwner}
    (howner : owner ∈ admitted.ownerPartition) (hother : other ∈ admitted.ownerPartition)
    (heq : admitted.scc owner = admitted.scc other) :
    Relation.ReflTransGen (ConsumedBy index.reverseEdges) owner other := by
  obtain ⟨component, hcomponent, hin⟩ := h.tables.exists_component howner
  have hmembers : (memberLists admitted.sccMembership)[admitted.scc owner]? =
      some component.owners := by
    rw [List.getElem?_map]
    exact congrArg (Option.map ReplayScc.owners) hcomponent
  have hin' : other ∈ component.owners :=
    (h.tables.mem_owners_iff hmembers).mpr ⟨hother, heq.symm⟩
  have hmutual := ((h.components.members _ (List.mem_of_getElem? hmembers) owner hin other).mp
    hin').2
  rw [← h.reverseEdges]
  exact Relation.reflTransGen_swap.mp hmutual.2

section Seeds

variable (h : Admission index admitted) {seeds : List ReplayOwner}
  (hseeds : ∀ seed ∈ seeds, seed ∈ admitted.ownerPartition)
include h hseeds

/-- What the components of seeds reach are the components of what the seeds reach. -/
theorem Admission.reachedFrom_iff {owner : ReplayOwner} (howner : owner ∈ admitted.ownerPartition) :
    ReachedFrom admitted.SccEdge (fun scc => ∃ seed ∈ seeds, admitted.scc seed = scc)
        (admitted.scc owner) ↔
      Affected index.reverseEdges (· ∈ seeds) owner := by
  constructor
  · rintro ⟨_, ⟨seed, hseed, rfl⟩, hpath⟩
    have hall : ∀ other ∈ admitted.ownerPartition, admitted.scc other = admitted.scc owner →
        Affected index.reverseEdges (· ∈ seeds) other := by
      generalize admitted.scc owner = last at hpath
      induction hpath with
      | refl =>
        exact fun other hother heq => ⟨seed, hseed, h.reach_of_scc_eq (hseeds seed hseed) hother
          heq.symm⟩
      | tail _ hedge ih =>
        obtain ⟨_, consumer, target, hdepends, htarget, rfl⟩ := h.sccEdge_iff.mp hedge
        intro other hother heq
        have hdepends' := hdepends
        rw [← h.reverseEdges] at hdepends'
        obtain ⟨source, hsource, hreach⟩ :=
          ih target (h.edges.dependency_mem consumer target hdepends') htarget
        have hinner := h.reach_of_scc_eq (h.edges.consumer_mem consumer target hdepends') hother
          heq.symm
        exact ⟨source, hsource, (hreach.tail hdepends).trans hinner⟩
    exact hall owner howner rfl
  · rintro ⟨seed, hseed, hpath⟩
    induction hpath with
    | refl => exact ⟨_, ⟨seed, hseed, rfl⟩, .refl⟩
    | @tail target consumer _ hedge ih =>
      have hedge' := hedge
      rw [ConsumedBy, ← h.reverseEdges] at hedge'
      have hreached := ih (h.edges.dependency_mem consumer target hedge')
      by_cases heq : admitted.scc target = admitted.scc consumer
      · rw [← heq]
        exact hreached
      · exact hreached.tail (h.sccEdge_iff.mpr ⟨heq, consumer, target, hedge, rfl, rfl⟩)

/-- The seed loop collects the components of the seeds. -/
theorem Admission.seedSccs_ok :
    ∃ queue, admitted.access.seedSccs seeds = .ok queue ∧
      Queue.Running admitted.SccEdge (fun scc => ∃ seed ∈ seeds, admitted.scc seed = scc) queue := by
  have hempty : ∀ scc, (scc ∈ (⟨∅, []⟩ : Queue Nat).seen ↔
        ∃ seed ∈ ([] : List ReplayOwner), admitted.scc seed = scc) ∧
      (scc ∈ (⟨∅, []⟩ : Queue Nat).pending ↔ scc ∈ (⟨∅, []⟩ : Queue Nat).seen) := by
    simp
  obtain ⟨queue, hqueue, hinv⟩ := foldlM_succeeds (f := fun queue seed =>
      match admitted.access.ownerScc seed with
      | none => Except.error (SparseReplayScheduleError.unknownSeed seed)
      | some scc => .ok (Queue.push queue scc))
    (fun done queue => ∀ scc, (scc ∈ queue.seen ↔ ∃ seed ∈ done, admitted.scc seed = scc) ∧
      (scc ∈ queue.pending ↔ scc ∈ queue.seen)) seeds [] hempty (by
    rintro front seed back queue hsplit hinv
    have hin : seed ∈ admitted.ownerPartition := hseeds seed (hsplit ▸ by simp)
    have hscc : admitted.access.ownerScc seed = some (admitted.scc seed) := h.ownerScc_eq hin
    refine ⟨queue.push (admitted.scc seed), by rw [hscc], fun scc => ?_⟩
    have hseen : scc ∈ (queue.pushAll [admitted.scc seed]).seen ↔
        scc ∈ queue.seen ∨ scc ∈ [admitted.scc seed] :=
      Queue.mem_seen_pushAll
    have hpending : scc ∈ (queue.pushAll [admitted.scc seed]).pending ↔
        scc ∈ queue.pending ∨ scc ∈ [admitted.scc seed] ∧ scc ∉ queue.seen :=
      Queue.mem_pending_pushAll
    change scc ∈ (queue.push (admitted.scc seed)).seen ↔ _ at hseen
    change scc ∈ (queue.push (admitted.scc seed)).pending ↔ _ at hpending
    obtain ⟨hseenDone, hpendingSeen⟩ := hinv scc
    rw [List.mem_singleton] at hseen hpending
    refine ⟨?_, by rw [hpending, hseen, hpendingSeen]; tauto⟩
    rw [hseen, hseenDone]
    simp only [List.nil_append, List.mem_append, List.mem_singleton]
    constructor
    · rintro (⟨other, hother, rfl⟩ | rfl)
      · exact ⟨other, .inl hother, rfl⟩
      · exact ⟨seed, .inr rfl, rfl⟩
    · rintro ⟨other, hother | rfl, rfl⟩
      · exact .inl ⟨other, hother, rfl⟩
      · exact .inr rfl)
  rw [List.nil_append] at hinv
  exact ⟨queue, hqueue, Queue.Running.initial (fun scc => (hinv scc).1)
    (fun scc => (hinv scc).2.trans (hinv scc).1)⟩

end Seeds

/-- The owners that a scheduler should return for seeds. -/
structure ScheduledExactly (index : CollisionReplayIndex) (seeds scheduled : List ReplayOwner) :
    Prop where
  mem_iff : ∀ owner, owner ∈ scheduled ↔ Affected index.reverseEdges (· ∈ seeds) owner
  nodup : scheduled.Nodup
  /-- no owner comes before an owner of another component that it depends on -/
  ordered : scheduled.Pairwise (fun earlier later =>
    Relation.ReflTransGen (DependsOn index.reverseEdges) earlier later →
      ∀ component ∈ index.sccMembership, earlier ∈ component.owners → later ∈ component.owners)

/-- **The sparse scheduler is exact.** -/
theorem Admission.schedule_ok (h : Admission index admitted) {seeds : List ReplayOwner}
    (hseeds : ∀ seed ∈ seeds, seed ∈ admitted.ownerPartition) :
    ∃ scheduled, admitted.access.scheduleSparseCollisionClosure seeds = .ok scheduled ∧
      ScheduledExactly index seeds scheduled := by
  obtain ⟨queue, hqueue, hrunning⟩ := h.seedSccs_ok hseeds
  have hlt : ∀ scc, ReachedFrom admitted.SccEdge
      (fun scc => ∃ seed ∈ seeds, admitted.scc seed = scc) scc →
      scc < admitted.sccMembership.length := by
    rintro scc ⟨_, ⟨seed, hseed, rfl⟩, hpath⟩
    cases hpath with
    | refl => exact h.tables.sccOf_lt (hseeds seed hseed)
    | tail _ hedge =>
      obtain ⟨_, owner, target, hdepends, _, rfl⟩ := h.sccEdge_iff.mp hedge
      rw [← h.reverseEdges] at hdepends
      exact h.tables.sccOf_lt (h.edges.consumer_mem owner target hdepends)
  have htargets : ∀ scc, ReachedFrom admitted.SccEdge
      (fun scc => ∃ seed ∈ seeds, admitted.scc seed = scc) scc →
      ∃ consumers, admitted.access.consumersOf scc = .ok consumers ∧
        ∀ consumer, consumer ∈ consumers ↔ admitted.SccEdge scc consumer :=
    fun scc hscc => ⟨_, h.consumersOf_eq (hlt scc hscc), fun consumer =>
      ⟨fun hconsumer => ⟨hlt scc hscc, hconsumer⟩, fun hedge => hedge.2⟩⟩
  obtain ⟨affected, haffected, hmem⟩ := hrunning.tryDrain_ok admitted.access.mem_consumers_of_ok
    htargets
  have hall : ∀ scc ∈ affected.toList, scc < admitted.sccMembership.length :=
    fun scc hscc => hlt scc ((hmem scc).mp (mem_toList.mp hscc))
  -- the components are there, and their owners are those that the table sends to them
  have howners : ∀ scc ∈ affected.toList, admitted.access.ownersOf scc =
      .ok ((memberLists admitted.sccMembership).getD scc []) := by
    intro scc hscc
    obtain ⟨component, hcomponent⟩ : ∃ component, admitted.sccMembership[scc]? = some component :=
      ⟨_, List.getElem?_eq_getElem (hall scc hscc)⟩
    rw [h.ownersOf_eq hcomponent, List.getD_eq_getElem?_getD, List.getElem?_map, hcomponent]
    rfl
  have hin : ∀ scc ∈ affected.toList, ∀ owner,
      owner ∈ (memberLists admitted.sccMembership).getD scc [] ↔
        owner ∈ admitted.ownerPartition ∧ admitted.scc owner = scc := by
    intro scc hscc owner
    refine h.tables.mem_owners_iff ?_
    rw [List.getD_eq_getElem?_getD, List.getElem?_eq_getElem (by simpa using hall scc hscc)]
    rfl
  have hsorted : affected.toList.Pairwise (· < ·) :=
    ordered_toList.imp (fun hlt => Nat.compare_eq_lt.mp hlt)
  refine ⟨(affected.toList.map (fun scc => (memberLists admitted.sccMembership).getD scc [])).flatten,
    ?_, ?_, ?_, ?_⟩
  · unfold SparseReplayGraphAccess.scheduleSparseCollisionClosure
    rw [hqueue, ok_bind]
    rw [haffected, ok_bind, mapM_ok howners]
    rfl
  · intro owner
    simp only [List.mem_flatten, List.mem_map, exists_exists_and_eq_and]
    constructor
    · rintro ⟨scc, hscc, howner⟩
      obtain ⟨hpartition, rfl⟩ := (hin scc hscc owner).mp howner
      exact (h.reachedFrom_iff hseeds hpartition).mp ((hmem _).mp (mem_toList.mp hscc))
    · intro haffectedOwner
      have hpartition : owner ∈ admitted.ownerPartition := by
        obtain ⟨seed, hseed, hpath⟩ := haffectedOwner
        cases hpath with
        | refl => exact hseeds owner hseed
        | tail _ hedge =>
          rw [ConsumedBy, ← h.reverseEdges] at hedge
          exact h.edges.consumer_mem _ _ hedge
      have hscc := (hmem _).mpr ((h.reachedFrom_iff hseeds hpartition).mpr haffectedOwner)
      exact ⟨_, mem_toList.mpr hscc,
        (hin _ (mem_toList.mpr hscc) owner).mpr ⟨hpartition, rfl⟩⟩
  · refine List.pairwise_flatten.mpr ⟨List.forall_mem_map.mpr (fun scc hscc => ?_),
      List.pairwise_map.mpr (hsorted.imp_of_mem (fun {first second} hfirst hsecond hlt => ?_))⟩
    · rw [List.getD_eq_getElem?_getD, List.getElem?_eq_getElem (by simpa using hall scc hscc)]
      exact (List.nodup_flatten.mp h.tables.nodup).1 _ (List.getElem_mem _)
    · rintro owner howner _ hother rfl
      have hsame := ((hin first hfirst owner).mp howner).2.symm.trans
        ((hin second hsecond owner).mp hother).2
      exact hlt.ne hsame
  · refine List.pairwise_flatten.mpr ⟨List.forall_mem_map.mpr (fun scc hscc => ?_),
      List.pairwise_map.mpr (hsorted.imp_of_mem (fun {first second} hfirst hsecond hlt => ?_))⟩
    · refine List.pairwise_of_forall_mem_list (fun earlier hearlier later hlater _ component
        hcomponent howner => ?_)
      rw [← h.sccMembership] at hcomponent
      have hmembers : component.owners = (memberLists admitted.sccMembership).getD scc [] := by
        refine h.components.eq_of_mem (List.mem_map_of_mem hcomponent) ?_ howner hearlier
        rw [List.getD_eq_getElem?_getD, List.getElem?_eq_getElem (by simpa using hall scc hscc)]
        exact List.getElem_mem _
      rw [hmembers]
      exact hlater
    · intro earlier hearlier later hlater hpath
      rw [← h.reverseEdges] at hpath
      have hle := h.edges.reach hpath
      rw [((hin first hfirst earlier).mp hearlier).2, ((hin second hsecond later).mp hlater).2] at hle
      exact absurd hlt (Nat.not_lt.mpr hle)

end Sparse

/-! ## §4 The loops over a plan are exact -/

/-- A plan with the rows that `finish_compact_plan` returns for a trace. -/
def BuiltFrom (trace : ReplayDependencyTrace) (plan : CollisionReplayPlan) : Prop :=
  ∃ rootSlots baselineRecords prefixCardinalities construction built,
    trace.finishCompactPlan rootSlots baselineRecords prefixCardinalities construction = .ok built ∧
      plan.SameRows built

section Plans

variable {trace : ReplayDependencyTrace} {plan : CollisionReplayPlan}

theorem BuiltFrom.edges (h : BuiltFrom trace plan) :
    plan.reverseEdges = (ownerEdges (dependencyRows trace.state)).insertionSort (· ≤ ·) ∧
      plan.reverseEdges.Pairwise (fun first second => first.dependency ≤ second.dependency) := by
  obtain ⟨rootSlots, _, _, _, built, hbuilt, hrows⟩ := h
  have hfinished := finishCompactPlan_ok hbuilt
  rw [hrows.reverseEdges]
  exact ⟨hfinished.reverseEdges, hfinished.edges_sorted⟩

/-- Partition points find the consumers of an owner. -/
theorem mem_consumersOf
    (hsorted : plan.reverseEdges.Pairwise
      (fun first second => first.dependency ≤ second.dependency)) {dependency consumer : ReplayOwner} :
    consumer ∈ plan.consumersOf dependency ↔ ConsumedBy plan.reverseEdges dependency consumer := by
  rw [CollisionReplayPlan.consumersOf, List.mem_map]
  constructor
  · rintro ⟨edge, hedge, rfl⟩
    obtain ⟨hin, rfl⟩ := (mem_rowsWithKey hsorted).mp hedge
    exact hin
  · exact fun hedge => ⟨_, (mem_rowsWithKey hsorted).mpr ⟨hedge, rfl⟩, rfl⟩

/-- **The loop over the rows is exact.** -/
theorem mem_closeOwners
    (hsorted : plan.reverseEdges.Pairwise
      (fun first second => first.dependency ≤ second.dependency))
    (owners : Std.TreeSet ReplayOwner) (owner : ReplayOwner) :
    owner ∈ PrivateCollisionEpoch.closeOwners plan owners ↔
      Affected plan.reverseEdges (· ∈ owners) owner :=
  Queue.mem_drain Queue.running_ofSet (fun _ _ => mem_consumersOf hsorted) owner

theorem mem_foldl_insert (rows : List ReplayOwner) (owners : Std.TreeSet ReplayOwner)
    (owner : ReplayOwner) :
    owner ∈ rows.foldl insert owners ↔ owner ∈ owners ∨ owner ∈ rows := by
  have hcollects := (foldl_collects (f := fun (owners : Std.TreeSet ReplayOwner) row =>
      owners.insert row) (fun _ => True) (fun owners => owner ∈ owners) (fun row => owner = row)
    rows owners trivial (fun row _ owners _ => ⟨trivial, by
      rw [mem_insert, Std.LawfulEqCmp.compare_eq_iff_eq, or_comm, eq_comm]⟩)).2
  rw [hcollects]
  simp

/-- Seeds count only as a set. -/
theorem affected_congr {edges : List ReplayReverseEdge} {seeds seeds' : ReplayOwner → Prop}
    (h : ∀ owner, seeds owner ↔ seeds' owner) (owner : ReplayOwner) :
    Affected edges seeds owner ↔ Affected edges seeds' owner := by
  rw [show seeds = seeds' from funext (fun other => propext (h other))]

/-- An installed epoch is closed from the owners of its seeds. -/
theorem install_ok {installed : Option PrivateCollisionEpoch}
    {seeds : List PrivateCollisionReplaySeed} {epoch : PrivateCollisionEpoch}
    (h : plan.installPrivateCollisionReplay installed seeds = .ok epoch) :
    epoch.plan = plan ∧ epoch.affectedOwners =
      PrivateCollisionEpoch.closeOwners plan (plan.seedOwners seeds).affectedOwners := by
  unfold CollisionReplayPlan.installPrivateCollisionReplay at h
  obtain ⟨_, h⟩ := rejectIf_bind_eq_ok.mp h
  cases h
  exact ⟨rfl, rfl⟩

/-- What `reclose_after_binding` leaves behind. -/
def Reclosed (epoch : PrivateCollisionEpoch) (mutationOwners : Std.TreeSet ReplayOwner)
    (next : PrivateCollisionEpoch) : Except PrivateReplayScheduleFailure Unit → Prop
  | .ok _ => ∀ owner, owner ∈ next.affectedOwners ↔ Affected epoch.plan.reverseEdges
      (fun seed => seed ∈ epoch.affectedOwners ∨ seed ∈ mutationOwners) owner
  | .error _ => next.affectedOwners = epoch.affectedOwners ∧ next.ownerSites = epoch.ownerSites ∧
      next.libraryRecordBaselines = epoch.libraryRecordBaselines ∧
      next.valueWinners = epoch.valueWinners

theorem reclosed_recloseAfterBinding {epoch : PrivateCollisionEpoch}
    (hsorted : epoch.plan.reverseEdges.Pairwise
      (fun first second => first.dependency ≤ second.dependency))
    (mutationOwners : Std.TreeSet ReplayOwner) (ownerEnds : Vector UInt64 3)
    (loadedSources : List Nat) :
    Reclosed epoch mutationOwners
      (epoch.recloseAfterBinding mutationOwners ownerEnds loadedSources).1
      (epoch.recloseAfterBinding mutationOwners ownerEnds loadedSources).2 := by
  unfold PrivateCollisionEpoch.recloseAfterBinding
  dsimp only
  split
  · exact ⟨rfl, rfl, rfl, rfl⟩
  · split
    · exact ⟨rfl, rfl, rfl, rfl⟩
    · intro owner
      refine (mem_closeOwners hsorted _ owner).trans (affected_congr (fun seed => ?_) owner)
      rw [mem_foldl_insert, mem_toList]

end Plans

/-! ## §5 All schedulers agree -/

/-- **All schedulers compute the same closure**: the sparse scheduler returns exactly what its
seeds reach, the loops over the plan of the same trace find the same owners, and reclosing adds
what the mutation owners reach or leaves the epoch as it was. -/
theorem schedulers_agree (sha256 : List UInt8 → Digest) :
    (∀ index limits expected admitted seeds,
      admitGeneratedCollisionReplayIndex sha256 index limits expected = .ok admitted →
      (∀ seed ∈ seeds, seed ∈ index.ownerPartition) →
      ∃ scheduled, admitted.access.scheduleSparseCollisionClosure seeds = .ok scheduled ∧
        ScheduledExactly index seeds scheduled) ∧
    (∀ (trace : ReplayDependencyTrace) ownerPartition rootSlots ownerSites baselineRecords
      invalidOwnerSiteCount index limits expected admitted plan seeds scheduled,
      trace.finish sha256 ownerPartition rootSlots ownerSites baselineRecords
        invalidOwnerSiteCount = .ok index →
      admitGeneratedCollisionReplayIndex sha256 index limits expected = .ok admitted →
      BuiltFrom trace plan →
      (∀ seed ∈ seeds, seed ∈ index.ownerPartition) →
      admitted.access.scheduleSparseCollisionClosure seeds = .ok scheduled →
      (∀ owners : Std.TreeSet ReplayOwner, (∀ owner, owner ∈ owners ↔ owner ∈ seeds) →
        ∀ owner, owner ∈ PrivateCollisionEpoch.closeOwners plan owners ↔ owner ∈ scheduled) ∧
      ∀ installed replaySeeds epoch,
        plan.installPrivateCollisionReplay installed replaySeeds = .ok epoch →
        (∀ owner, owner ∈ (plan.seedOwners replaySeeds).affectedOwners ↔ owner ∈ seeds) →
        ∀ owner, owner ∈ epoch.affectedOwners ↔ owner ∈ scheduled) ∧
    ∀ trace epoch mutationOwners ownerEnds loadedSources, BuiltFrom trace epoch.plan →
      Reclosed epoch mutationOwners
        (epoch.recloseAfterBinding mutationOwners ownerEnds loadedSources).1
        (epoch.recloseAfterBinding mutationOwners ownerEnds loadedSources).2 := by
  have hschedule : ∀ index limits expected admitted seeds,
      admitGeneratedCollisionReplayIndex sha256 index limits expected = .ok admitted →
      (∀ seed ∈ seeds, seed ∈ index.ownerPartition) →
      ∃ scheduled, admitted.access.scheduleSparseCollisionClosure seeds = .ok scheduled ∧
        ScheduledExactly index seeds scheduled := by
    intro index limits expected admitted seeds hadmit hseeds
    have hadmission := admit_ok hadmit
    rw [← hadmission.ownerPartition] at hseeds
    exact hadmission.schedule_ok hseeds
  refine ⟨hschedule, ?_, ?_⟩
  · intro trace ownerPartition rootSlots ownerSites baselineRecords invalidOwnerSiteCount index
      limits expected admitted plan seeds scheduled hfinish hadmit hbuilt hseeds hscheduled
    obtain ⟨scheduled', hscheduled', hexact⟩ := hschedule _ _ _ _ _ hadmit hseeds
    rw [hscheduled, Except.ok.injEq] at hscheduled'
    subst hscheduled'
    obtain ⟨hedges, hsorted⟩ := hbuilt.edges
    -- both tables have the rows of the trace
    have hsame : plan.reverseEdges = index.reverseEdges := hedges.trans (finish_ok hfinish).2.symm
    have hclose : ∀ owners : Std.TreeSet ReplayOwner, (∀ owner, owner ∈ owners ↔ owner ∈ seeds) →
        ∀ owner, owner ∈ PrivateCollisionEpoch.closeOwners plan owners ↔ owner ∈ scheduled := by
      intro owners howners owner
      rw [mem_closeOwners hsorted, hexact.mem_iff, hsame]
      exact affected_congr howners owner
    refine ⟨hclose, fun installed replaySeeds epoch hinstall hstart owner => ?_⟩
    rw [(install_ok hinstall).2]
    exact hclose _ hstart owner
  · intro trace epoch mutationOwners ownerEnds loadedSources hbuilt
    exact reclosed_recloseAfterBinding hbuilt.edges.2 mutationOwners ownerEnds loadedSources

section Sample

/-- The small trace with the sites of its owners. -/
def closureTrace : ReplayDependencyTrace where
  state := { sampleTrace.state with
    ownerSites := {
      ticketSlots := [⟨⟨0, 3, 0, 0⟩,
        some ⟨.statement ⟨0, 3, 0, 0⟩, 0, ⟨3, 9⟩, .event .immediate⟩⟩]
      directSites := [⟨.globalObject, 0, ⟨0, 1⟩, .explicitGlobalThis .compilationGlobal⟩] } }

def closurePlanResult : Except ReplayIndexGenerationError CollisionReplayPlan :=
  closureTrace.finishCompactPlan [{ name := "globalThis", explicitGlobalThis := true }] []
    (Vector.replicate 9 0) {}

def closurePlan : CollisionReplayPlan :=
  closurePlanResult.toOption.get (by decide +kernel)

theorem closurePlan_builtFrom : BuiltFrom closureTrace closurePlan := by
  have hsome : closurePlanResult.toOption = some closurePlan := (Option.some_get _).symm
  cases h : closurePlanResult with
  | error error =>
    rw [h] at hsome
    cases hsome
  | ok plan =>
    rw [h] at hsome
    cases Option.some.inj hsome
    exact ⟨_, _, _, _, _, h, ⟨rfl, rfl, rfl, rfl, rfl, rfl, rfl, rfl⟩⟩

/-- The statement is affected by a declaration of the name that it looks up. -/
theorem schedulers_agree_sample : ∃ admitted scheduled epoch,
    admitGeneratedCollisionReplayIndex sampleSha256 sampleIndex sampleLimits none = .ok admitted ∧
      admitted.access.scheduleSparseCollisionClosure [.statement ⟨0, 3, 0, 0⟩] = .ok scheduled ∧
      ScheduledExactly sampleIndex [.statement ⟨0, 3, 0, 0⟩] scheduled ∧
      closurePlan.installPrivateCollisionReplay none [⟨"Missing", true, false, false, false⟩] =
        .ok epoch ∧
      (∀ owner, owner ∈ epoch.affectedOwners ↔ owner ∈ scheduled) ∧
      Reclosed epoch ∅ (epoch.recloseAfterBinding ∅ (Vector.replicate 3 0) [0]).1
        (epoch.recloseAfterBinding ∅ (Vector.replicate 3 0) [0]).2 := by
  have hbaselines : ∀ record ∈ sampleIndex.baselineRecords, ¬ record.owner.IsStatement →
      record.recordCount = 0 ∧ record.digest = emptyBaselineDigest sampleSha256 := by
    decide +kernel
  obtain ⟨admitted, hadmit⟩ := admit_finished (finish_ok sampleFinish_eq).1
    sampleIndex_fewRows sampleIndex_describedBy hbaselines
  have hseeds : ∀ seed ∈ [ReplayOwner.statement ⟨0, 3, 0, 0⟩],
      seed ∈ sampleIndex.ownerPartition := by decide +kernel
  obtain ⟨scheduled, hscheduled, hexact⟩ :=
    (schedulers_agree sampleSha256).1 _ _ _ _ _ hadmit hseeds
  obtain ⟨epoch, hinstall⟩ : ∃ epoch, closurePlan.installPrivateCollisionReplay none
      [⟨"Missing", true, false, false, false⟩] = .ok epoch := ⟨_, rfl⟩
  have hplan : BuiltFrom closureTrace epoch.plan := by
    rw [(install_ok hinstall).1]
    exact closurePlan_builtFrom
  have hstart : (closurePlan.seedOwners
    [⟨"Missing", true, false, false, false⟩]).affectedOwners.toList =
      [.statement ⟨0, 3, 0, 0⟩] := by decide +kernel
  refine ⟨admitted, scheduled, epoch, hadmit, hscheduled, hexact, hinstall, ?_,
    (schedulers_agree sampleSha256).2.2 _ _ _ _ _ hplan⟩
  refine ((schedulers_agree sampleSha256).2.1 closureTrace _ _ _ _ _ _ _ _ _ _ _ _ sampleFinish_eq
    hadmit
    closurePlan_builtFrom hseeds hscheduled).2 _ _ _ hinstall (fun owner => ?_)
  rw [← mem_toList, hstart]

end Sample

end Typokat.Replay
