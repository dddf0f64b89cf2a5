import Typokat.Replay.Closure

/-!
# Routing a Project (`collision_preflight.rs`, `base.rs`)

A project without a collision runs on the shared base.  The route is decided from the names
that the library publishes; the private route seeds its closure from the root slots of the
plan, which has more names.

## Main Results

- `mem_seedOwners` : what the seeds of a project mark
- `shared_marks_nothing_iff` : when the private route would replay nothing
-/

namespace Typokat.Replay

open Check Lib

/-! ## §1 Preflight -/

inductive SourceBindingSlot
  | value | type | namespace
  deriving DecidableEq, Repr

/-- `SourceGlobalBindingCandidate`. -/
structure SourceGlobalBindingCandidate where
  slots : Finset SourceBindingSlot := ∅
  globalObjectContributor : Bool := false

abbrev SourceGlobalBindingCandidates := Std.TreeMap String SourceGlobalBindingCandidate

def reasonIf (condition : Prop) [Decidable condition] (reason : String) : Finset String :=
  if condition then {reason} else ∅

/-- The reasons of one candidate. -/
def candidateReason (rootNames : Finset String) (entry : String × SourceGlobalBindingCandidate) :
    Finset String :=
  reasonIf (entry.1 ∈ rootNames) "frozen-root-name-collision"
    ∪ reasonIf (entry.2.globalObjectContributor = true) "global-object-contributor"

/-- The reasons that the loop of `preflight_project` over the candidates finds. -/
def candidateReasons (rootNames : Finset String) (candidates : SourceGlobalBindingCandidates) :
    Finset String :=
  candidates.toList.foldl (fun reasons entry => reasons ∪ candidateReason rootNames entry) ∅

/-- `private_collision_replay_seeds`, of the candidates of a receipt. -/
def privateCollisionReplaySeeds (candidates : SourceGlobalBindingCandidates) :
    List PrivateCollisionReplaySeed :=
  candidates.toList.map (fun entry => {
    name := entry.1
    value := .value ∈ entry.2.slots
    ty := .type ∈ entry.2.slots
    namespaceSlot := .namespace ∈ entry.2.slots
    globalObject := entry.2.globalObjectContributor })

theorem mem_candidateReasons {rootNames : Finset String}
    {candidates : SourceGlobalBindingCandidates} {reason : String} :
    reason ∈ candidateReasons rootNames candidates ↔
      ∃ entry ∈ candidates.toList, reason ∈ candidateReason rootNames entry := by
  have hcollects := (foldl_collects (f := fun (reasons : Finset String)
      (entry : String × SourceGlobalBindingCandidate) => reasons ∪ candidateReason rootNames entry)
    (fun _ => True) (fun reasons => reason ∈ reasons)
    (fun entry => reason ∈ candidateReason rootNames entry) candidates.toList ∅ trivial
    (fun entry _ reasons _ => ⟨trivial, Finset.mem_union⟩)).2
  rw [candidateReasons, hcollects]
  simp

/-- No reason: no candidate has a published name, and none contributes to the global object. -/
theorem candidateReasons_eq_empty {rootNames : Finset String}
    {candidates : SourceGlobalBindingCandidates} :
    candidateReasons rootNames candidates = ∅ ↔ ∀ entry ∈ candidates.toList,
      entry.1 ∉ rootNames ∧ entry.2.globalObjectContributor = false := by
  have hentry : ∀ entry, candidateReason rootNames entry = ∅ ↔
      entry.1 ∉ rootNames ∧ entry.2.globalObjectContributor = false := by
    intro entry
    rw [candidateReason, Finset.union_eq_empty, reasonIf, reasonIf]
    simp
  rw [Finset.eq_empty_iff_forall_notMem]
  simp only [mem_candidateReasons, not_exists, not_and]
  constructor
  · exact fun h entry hin => (hentry entry).mp
      (Finset.eq_empty_iff_forall_notMem.mpr (fun reason => h reason entry hin))
  · intro h reason entry hin
    rw [(hentry entry).mpr (h entry hin)]
    exact Finset.notMem_empty reason

/-! ## §2 What seeds mark -/

section Seeds

variable {trace : ReplayDependencyTrace} {rootSlots : List ReplayRootSlot}
  {plan sealed : CollisionReplayPlan}

/-- What one seed marks. -/
def CollisionReplayPlan.Marks (plan : CollisionReplayPlan) (seed : PrivateCollisionReplaySeed)
    (owner : ReplayOwner) : Prop :=
  (seed.globalObject = true ∧ owner = .globalObject) ∨
    ∃ root, plan.rootSlot seed.name = some root ∧ owner ∈ plan.ownersOfSeed seed root

theorem mem_addSeed (seeded : SeededOwners) (seed : PrivateCollisionReplaySeed)
    (owner : ReplayOwner) : owner ∈ (plan.addSeed seeded seed).affectedOwners ↔
      owner ∈ seeded.affectedOwners ∨ plan.Marks seed owner := by
  have hglobal : owner ∈ (if seed.globalObject then { seeded with
        affectedOwners := seeded.affectedOwners.insert .globalObject } else seeded).affectedOwners ↔
      owner ∈ seeded.affectedOwners ∨ (seed.globalObject = true ∧ owner = .globalObject) := by
    split
    · rename_i hflag
      rw [Std.TreeSet.mem_insert, Std.LawfulEqCmp.compare_eq_iff_eq, or_comm, eq_comm]
      simp [hflag]
    · rename_i hflag
      simp [hflag]
  unfold CollisionReplayPlan.addSeed CollisionReplayPlan.Marks
  dsimp only
  cases plan.rootSlot seed.name with
  | none => rw [hglobal]; simp
  | some root => rw [mem_foldl_insert, hglobal, or_assoc]; simp

/-- **What the loop over the seeds marks.** -/
theorem mem_seedOwners (seeds : List PrivateCollisionReplaySeed) (owner : ReplayOwner) :
    owner ∈ (plan.seedOwners seeds).affectedOwners ↔ ∃ seed ∈ seeds, plan.Marks seed owner := by
  have hcollects := (foldl_collects (f := plan.addSeed) (fun _ => True)
    (fun seeded => owner ∈ seeded.affectedOwners) (fun seed => plan.Marks seed owner) seeds
    ⟨∅, ∅⟩ trivial (fun seed _ seeded _ => ⟨trivial, mem_addSeed seeded seed owner⟩)).2
  rw [CollisionReplayPlan.seedOwners, hcollects]
  simp

/-- An installed epoch has an affected owner iff some seed marks one. -/
theorem exists_affected_iff
    (hsorted : plan.reverseEdges.Pairwise
      (fun first second => first.dependency ≤ second.dependency))
    {installed : Option PrivateCollisionEpoch} {seeds : List PrivateCollisionReplaySeed}
    {epoch : PrivateCollisionEpoch}
    (h : plan.installPrivateCollisionReplay installed seeds = .ok epoch) :
    (∃ owner, owner ∈ epoch.affectedOwners) ↔ ∃ seed ∈ seeds, ∃ owner, plan.Marks seed owner := by
  simp only [(install_ok h).2, mem_closeOwners hsorted]
  constructor
  · rintro ⟨_, start, hstart, _⟩
    obtain ⟨seed, hseed, hmarks⟩ := (mem_seedOwners seeds start).mp hstart
    exact ⟨seed, hseed, start, hmarks⟩
  · rintro ⟨seed, hseed, owner, hmarks⟩
    exact ⟨owner, owner, (mem_seedOwners seeds owner).mpr ⟨seed, hseed, hmarks⟩, .refl⟩

/-- The root slot of a name that is not published is a placeholder. -/
theorem rootSlot_eq_placeholder (hslots : CompleteSlots rootSlots plan.rootSlotConsumers
    plan.rootSlots) {name : String} (hname : name ∉ rootSlots.map (fun root => root.name))
    {root : ReplayRootSlot} (hroot : plan.rootSlot name = some root) : root = { name := name } := by
  have hfound := List.find?_some hroot
  rw [decide_eq_true_eq] at hfound
  rcases (hslots.mem_iff root).mp (List.mem_of_find?_eq_some hroot) with hin | ⟨_, _, _, rfl⟩
  · exact absurd (List.mem_map.mpr ⟨root, hin, hfound⟩) hname
  · rw [← hfound]

/-- A seed with a name that is not published marks the consumers of the name. -/
theorem marks_iff_of_unpublished (hslots : CompleteSlots rootSlots plan.rootSlotConsumers
    plan.rootSlots)
    (hsorted : plan.rootSlotConsumers.Pairwise (fun first second => first.name ≤ second.name))
    {seed : PrivateCollisionReplaySeed} (hglobal : seed.globalObject = false)
    (hname : seed.name ∉ rootSlots.map (fun root => root.name)) {owner : ReplayOwner} :
    plan.Marks seed owner ↔
      ∃ row ∈ plan.rootSlotConsumers, row.name = seed.name ∧ row.consumer = owner := by
  have howners : ∀ root, plan.rootSlot seed.name = some root →
      plan.ownersOfSeed seed root =
        (plan.rootConsumers seed.name).map (fun row => row.consumer) := by
    intro root hroot
    rw [rootSlot_eq_placeholder hslots hname hroot]
    simp [CollisionReplayPlan.ownersOfSeed, ReplayRootSlot.owners]
  have hconsumers : owner ∈ (plan.rootConsumers seed.name).map (fun row => row.consumer) ↔
      ∃ row ∈ plan.rootSlotConsumers, row.name = seed.name ∧ row.consumer = owner := by
    rw [List.mem_map]
    refine exists_congr (fun row => ?_)
    rw [CollisionReplayPlan.rootConsumers, mem_rowsWithKey hsorted, and_assoc]
  rw [CollisionReplayPlan.Marks, hglobal, ← hconsumers]
  constructor
  · rintro (⟨hflag, _⟩ | ⟨root, hroot, howner⟩)
    · cases hflag
    · rwa [howners root hroot] at howner
  · intro howner
    obtain ⟨row, hrow, heq, _⟩ := hconsumers.mp howner
    -- a consumed name has a root slot
    obtain ⟨slot, hslot, hslotName⟩ := List.mem_map.mp (hslots.consumed hrow)
    obtain ⟨root, hroot⟩ : ∃ root, plan.rootSlot seed.name = some root := by
      refine Option.isSome_iff_exists.mp (List.find?_isSome.mpr ⟨slot, hslot, ?_⟩)
      rw [decide_eq_true_eq, hslotName, heq]
    exact .inr ⟨root, hroot, by rwa [howners root hroot]⟩

end Seeds

/-! ## §3 The shared route -/

/-- **The shared route skips nothing exactly when** no candidate has a name that library code
looks up without publishing it. -/
theorem shared_marks_nothing_iff (sha256 : List UInt8 → Digest) (trace : ReplayDependencyTrace)
    (rootSlots : List ReplayRootSlot) (baselineRecords : List ReplayBaselineRecord)
    (prefixCardinalities observed : Vector UInt64 9)
    (construction : CollisionReplayConstructionEvidence) (profileIdentity : String)
    (plan sealed : CollisionReplayPlan) (rootNames : Finset String)
    (candidates : SourceGlobalBindingCandidates)
    (hplan : trace.finishCompactPlan rootSlots baselineRecords prefixCardinalities construction =
      .ok plan)
    (hsealed : plan.sealAdmitAndMaterializeRootNameIndex sha256 observed profileIdentity =
      .ok (sealed, rootNames))
    (hreasons : candidateReasons rootNames candidates = ∅) :
    (∀ epoch, sealed.installPrivateCollisionReplay none (privateCollisionReplaySeeds candidates) =
        .ok epoch → ∀ owner, owner ∉ epoch.affectedOwners) ↔
      ∀ entry ∈ candidates.toList, ∀ row ∈ sealed.rootSlotConsumers, row.name ≠ entry.1 := by
  obtain ⟨hrows, hnames⟩ := CollisionReplayPlan.materialize_ok hsealed
  have hfinished := finishCompactPlan_ok hplan
  have hslots : CompleteSlots rootSlots sealed.rootSlotConsumers sealed.rootSlots := by
    rw [hrows.rootSlots, hrows.rootSlotConsumers]
    exact hfinished.slots
  have hconsumers : sealed.rootSlotConsumers.Pairwise
      (fun first second => first.name ≤ second.name) :=
    hrows.rootSlotConsumers ▸ hfinished.consumers_sorted
  have hedges : sealed.reverseEdges.Pairwise
      (fun first second => first.dependency ≤ second.dependency) :=
    hrows.reverseEdges ▸ hfinished.edges_sorted
  -- a candidate without a reason marks the consumers of its name
  have hmarks : ∀ seed ∈ privateCollisionReplaySeeds candidates, ∀ owner,
      sealed.Marks seed owner ↔
        ∃ row ∈ sealed.rootSlotConsumers, row.name = seed.name ∧ row.consumer = owner := by
    intro seed hseed owner
    obtain ⟨entry, hentry, rfl⟩ := List.mem_map.mp hseed
    obtain ⟨hunpublished, hglobal⟩ := candidateReasons_eq_empty.mp hreasons entry hentry
    refine marks_iff_of_unpublished hslots hconsumers hglobal ?_
    rwa [hnames, hfinished.rootNames, List.mem_toFinset, mem_sortDedup] at hunpublished
  constructor
  · intro hnone entry hentry row hrow heq
    have hseeds : privateCollisionReplaySeeds candidates ≠ [] :=
      fun h => List.ne_nil_of_mem hentry (List.map_eq_nil_iff.mp h)
    obtain ⟨epoch, hepoch⟩ : ∃ epoch, sealed.installPrivateCollisionReplay none
        (privateCollisionReplaySeeds candidates) = .ok epoch := by
      unfold CollisionReplayPlan.installPrivateCollisionReplay
      rw [rejectIf_pass (by simpa using hseeds), ok_bind]
      exact ⟨_, rfl⟩
    have hseed := List.mem_map_of_mem (f := fun entry : String × SourceGlobalBindingCandidate =>
      ({ name := entry.1
         value := .value ∈ entry.2.slots
         ty := .type ∈ entry.2.slots
         namespaceSlot := .namespace ∈ entry.2.slots
         globalObject := entry.2.globalObjectContributor } : PrivateCollisionReplaySeed)) hentry
    obtain ⟨owner, howner⟩ := (exists_affected_iff hedges hepoch).mpr
      ⟨_, hseed, row.consumer, (hmarks _ hseed _).mpr ⟨row, hrow, heq, rfl⟩⟩
    exact hnone epoch hepoch owner howner
  · intro hfree epoch hepoch owner howner
    obtain ⟨seed, hseed, marked, hmarked⟩ := (exists_affected_iff hedges hepoch).mp ⟨owner, howner⟩
    obtain ⟨row, hrow, heq, _⟩ := (hmarks seed hseed marked).mp hmarked
    obtain ⟨entry, hentry, rfl⟩ := List.mem_map.mp hseed
    exact hfree entry hentry row hrow heq

section Sample

/-- The small trace, with the counters that sealing asks for. -/
def routedTrace : ReplayDependencyTrace where
  state := { closureTrace.state with
    ownerSites := { closureTrace.state.ownerSites with writes := 2 }
    traceDomainSealedAfterBinderReporting := true }

def routedPlanResult : Except ReplayIndexGenerationError CollisionReplayPlan :=
  routedTrace.finishCompactPlan [{ name := "globalThis", explicitGlobalThis := true }] []
    (Vector.replicate 9 0)
    { librarySourceCompiles := 1, binderSourceCensuses := 1, canonicalSourceUnits := 1 }

def routedPlan : CollisionReplayPlan :=
  routedPlanResult.toOption.get (by decide +kernel)

def routedSealResult : Except ReplayIndexGenerationError (CollisionReplayPlan × Finset String) :=
  routedPlan.sealAdmitAndMaterializeRootNameIndex sampleSha256 (Vector.replicate 9 0) "library"

def routedSeal : CollisionReplayPlan × Finset String :=
  routedSealResult.toOption.get (by decide +kernel)

theorem eq_ok_get {ε α : Type} {result : Except ε α} (h : result.toOption.isSome) :
    result = .ok (result.toOption.get h) := by
  cases result with
  | error error => cases h
  | ok value => rfl

theorem routedPlan_ok : routedPlanResult = .ok routedPlan := eq_ok_get _

theorem routedSeal_ok : routedSealResult = .ok (routedSeal.1, routedSeal.2) := eq_ok_get _

/-- `interface name {}` in a script. -/
def interfaceCandidate (name : String) : SourceGlobalBindingCandidates :=
  Std.TreeMap.ofList [(name, ({ slots := {.type} } : SourceGlobalBindingCandidate))]

/-- A name that nothing looks up: nothing is replayed. -/
theorem shared_marks_nothing_iff_unused : ∃ epoch,
    routedSeal.1.installPrivateCollisionReplay none
      (privateCollisionReplaySeeds (interfaceCandidate "Unused")) = .ok epoch ∧
    ∀ owner, owner ∉ epoch.affectedOwners := by
  obtain ⟨epoch, hepoch⟩ : ∃ epoch, routedSeal.1.installPrivateCollisionReplay none
      (privateCollisionReplaySeeds (interfaceCandidate "Unused")) = .ok epoch := ⟨_, rfl⟩
  refine ⟨epoch, hepoch, ?_⟩
  exact (shared_marks_nothing_iff _ _ _ _ _ _ _ _ _ _ _ _ routedPlan_ok routedSeal_ok
    (by decide +kernel)).mpr (by decide +kernel) epoch hepoch

/-- A name that library code looks up and does not publish gives no reason for the private route,
where it would replay the statement that looks it up. -/
theorem shared_route_skips_replay : ∃ epoch,
    routedTrace.finishCompactPlan [{ name := "globalThis", explicitGlobalThis := true }] []
        (Vector.replicate 9 0)
        { librarySourceCompiles := 1, binderSourceCensuses := 1, canonicalSourceUnits := 1 } =
      .ok routedPlan ∧
    routedPlan.sealAdmitAndMaterializeRootNameIndex sampleSha256 (Vector.replicate 9 0) "library" =
      .ok (routedSeal.1, routedSeal.2) ∧
    candidateReasons routedSeal.2 (interfaceCandidate "Missing") = ∅ ∧
    routedSeal.1.installPrivateCollisionReplay none
      (privateCollisionReplaySeeds (interfaceCandidate "Missing")) = .ok epoch ∧
    ReplayOwner.statement ⟨0, 3, 0, 0⟩ ∈ epoch.affectedOwners := by
  have hmarked : ReplayOwner.statement ⟨0, 3, 0, 0⟩ ∈ (routedSeal.1.seedOwners
      (privateCollisionReplaySeeds (interfaceCandidate "Missing"))).affectedOwners := by
    decide +kernel
  obtain ⟨epoch, hepoch⟩ : ∃ epoch, routedSeal.1.installPrivateCollisionReplay none
      (privateCollisionReplaySeeds (interfaceCandidate "Missing")) = .ok epoch := ⟨_, rfl⟩
  have hsorted : routedSeal.1.reverseEdges.Pairwise
      (fun first second => first.dependency ≤ second.dependency) :=
    (CollisionReplayPlan.materialize_ok routedSeal_ok).1.reverseEdges ▸
      (finishCompactPlan_ok routedPlan_ok).edges_sorted
  refine ⟨epoch, routedPlan_ok, routedSeal_ok, by decide +kernel, hepoch, ?_⟩
  rw [(install_ok hepoch).2, mem_closeOwners hsorted]
  exact ⟨_, hmarked, .refl⟩

end Sample

end Typokat.Replay
