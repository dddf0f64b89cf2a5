import Typokat.Replay.Accepted

/-!
# Finished Indexes are Accepted (`checker/replay_index.rs`)

An index that the generator returns passes the admission when the limits describe it.

## Main Results

- `admitOwnerPartition_succeeds`, `admitRootIndex_succeeds` : limits that describe the owners
  and the root slots
- `admit_finished` : a finished index is accepted
- `admission_complete` : accepted tables are exact, and finished ones are accepted
-/

namespace Typokat.Replay

open Check Lib List

/-! ## §1 Limits -/

/-- The limits describe the owners, the source files and the root slots of an index. -/
structure DescribedBy (limits : ReplayIndexAdmissionLimits) (rootSlots : List ReplayRootSlot)
    (index : CollisionReplayIndex) : Prop where
  typeGroups : ∀ id, .typeGroup id ∈ index.ownerPartition ↔ id.toNat < limits.typeGroups.toNat
  valueStorages : ∀ id, .value id ∈ index.ownerPartition ↔ id.toNat < limits.valueStorages.toNat
  namespaces : ∀ id, .namespace id ∈ index.ownerPartition ↔ id.toNat < limits.namespaces.toNat
  classes : ∀ id, .class id ∈ index.ownerPartition ↔ id.toNat < limits.classes.toNat
  globalObject : .globalObject ∈ index.ownerPartition
  statementFiles : ∀ key, .statement key ∈ index.ownerPartition →
    key.fileOrdinal.toNat < limits.sourceFiles.toNat
  siteFiles : ∀ site ∈ index.ownerSites, site.fileOrdinal.toNat < limits.sourceFiles.toNat
  populated : ∀ root ∈ rootSlots, root.Populated
  roots : ∀ identity, identity ∈ limits.roots ↔
    identity ∈ rootSlots.map ReplayRootSlot.identity

/-- Every table has fewer than `2^32` rows. -/
structure FewRows (index : CollisionReplayIndex) : Prop where
  ownerPartition : index.ownerPartition.length < 2 ^ 32
  rootSlots : index.rootSlots.length < 2 ^ 32
  ownerSites : index.ownerSites.length < 2 ^ 32
  reverseEdges : index.reverseEdges.length < 2 ^ 32
  rootSlotConsumers : index.rootSlotConsumers.length < 2 ^ 32
  sccMembership : index.sccMembership.length < 2 ^ 32
  statementOwners : index.statementOwners.length < 2 ^ 32
  baselineRecords : index.baselineRecords.length < 2 ^ 32

/-! ## §2 The partition -/

theorem ReplayOwner.lt_of_tag_lt {first second : ReplayOwner}
    (h : first.tag.toNat < second.tag.toNat) : first < second :=
  Prod.Lex.lt_iff.mpr (.inl h)

theorem ReplayOwner.lt_of_payload_lt {first second : ReplayOwner} (htag : first.tag = second.tag)
    (h : first.payload < second.payload) : first < second :=
  Prod.Lex.lt_iff.mpr (.inr ⟨congrArg UInt8.toNat htag, h⟩)

/-- A family of owners with ids and one tag. -/
structure DenseFamily (make : UInt32 → ReplayOwner) (tag : Nat) : Prop where
  tag_eq : ∀ id, (make id).tag.toNat = tag
  sorted : ∀ first second : UInt32, first.toNat < second.toNat → make first < make second

theorem denseFamily_typeGroup : DenseFamily .typeGroup 0 :=
  ⟨fun _ => rfl, fun _ _ h =>
    ReplayOwner.lt_of_payload_lt rfl (Prod.Lex.lt_iff.mpr (.inl h))⟩

theorem denseFamily_value : DenseFamily .value 1 :=
  ⟨fun _ => rfl, fun _ _ h =>
    ReplayOwner.lt_of_payload_lt rfl (Prod.Lex.lt_iff.mpr (.inl h))⟩

theorem denseFamily_namespace : DenseFamily .namespace 2 :=
  ⟨fun _ => rfl, fun _ _ h =>
    ReplayOwner.lt_of_payload_lt rfl (Prod.Lex.lt_iff.mpr (.inl h))⟩

theorem denseFamily_class : DenseFamily .class 3 :=
  ⟨fun _ => rfl, fun _ _ h =>
    ReplayOwner.lt_of_payload_lt rfl (Prod.Lex.lt_iff.mpr (.inl h))⟩

/-- The owners of a family with an id below `count`. -/
def denseList (make : UInt32 → ReplayOwner) (count : Nat) : List ReplayOwner :=
  (List.range count).map (fun id => make (UInt32.ofNat id))

namespace DenseFamily

variable {make : UInt32 → ReplayOwner} {tag count : Nat} {partition : List ReplayOwner}

theorem tag_of_mem (h : DenseFamily make tag) :
    ∀ owner ∈ denseList make count, owner.tag.toNat = tag := by
  intro owner howner
  obtain ⟨id, _, rfl⟩ := mem_map.mp howner
  exact h.tag_eq _

theorem pairwise_denseList (h : DenseFamily make tag) (hcount : count ≤ 2 ^ 32) :
    (denseList make count).Pairwise (· < ·) := by
  rw [denseList, pairwise_map]
  refine pairwise_lt_range.imp_of_mem (fun {first second} _ hsecond hlt => ?_)
  have hbound := mem_range.mp hsecond
  refine h.sorted _ _ ?_
  rw [UInt32.toNat_ofNat_of_lt' (by change _ < 2 ^ 32; omega),
    UInt32.toNat_ofNat_of_lt' (by change _ < 2 ^ 32; omega)]
  exact hlt

theorem mem_denseList (hcount : count ≤ 2 ^ 32) {owner : ReplayOwner} :
    owner ∈ denseList make count ↔ ∃ id : UInt32, id.toNat < count ∧ make id = owner := by
  rw [denseList, mem_map]
  constructor
  · rintro ⟨id, hid, rfl⟩
    have hlt := mem_range.mp hid
    refine ⟨UInt32.ofNat id, ?_, rfl⟩
    rw [UInt32.toNat_ofNat_of_lt' (by change _ < 2 ^ 32; omega)]
    exact hlt
  · rintro ⟨id, hid, rfl⟩
    exact ⟨id.toNat, mem_range.mpr hid, by rw [UInt32.ofNat_toNat]⟩

/-- A family whose ids are all in a short partition has few ids. -/
theorem lt_of_mem_iff (h : DenseFamily make tag) (hpartition : partition.length < 2 ^ 32)
    (hmem : ∀ id, make id ∈ partition ↔ id.toNat < count) : count < 2 ^ 32 := by
  by_contra hlarge
  have hsub : denseList make (2 ^ 32) ⊆ partition := by
    intro owner howner
    obtain ⟨id, hid, rfl⟩ := (mem_denseList (Nat.le_refl _)).mp howner
    exact (hmem id).mpr (by omega)
  have hnodup := (h.pairwise_denseList (Nat.le_refl (2 ^ 32))).imp ne_of_lt
  have hle := (subperm_of_subset hnodup hsub).length_le
  rw [denseList, length_map, length_range] at hle
  omega

end DenseFamily

theorem denseOwners_eq {make : UInt32 → ReplayOwner} {count : UInt64}
    (hcount : count.toNat < 2 ^ 32) :
    denseOwners make count = .ok (denseList make count.toNat) :=
  mapM_ok (fun id hid => if_pos ((mem_range.mp hid).trans hcount))

/-- The owners that are no statements, as the limits describe them. -/
def nonstatements (limits : ReplayIndexAdmissionLimits) : List ReplayOwner :=
  denseList .typeGroup limits.typeGroups.toNat ++ denseList .value limits.valueStorages.toNat
    ++ denseList .namespace limits.namespaces.toNat ++ denseList .class limits.classes.toNat
    ++ [.globalObject]

theorem pairwise_append_of_tag (tag : Nat) {first second : List ReplayOwner}
    (hfirst : first.Pairwise (· < ·)) (hsecond : second.Pairwise (· < ·))
    (hbelow : ∀ owner ∈ first, owner.tag.toNat < tag)
    (habove : ∀ owner ∈ second, tag ≤ owner.tag.toNat) :
    (first ++ second).Pairwise (· < ·) := by
  refine pairwise_append.mpr ⟨hfirst, hsecond, fun owner howner other hother => ?_⟩
  exact ReplayOwner.lt_of_tag_lt (lt_of_lt_of_le (hbelow owner howner) (habove other hother))

section Partition

variable {limits : ReplayIndexAdmissionLimits} {rootSlots : List ReplayRootSlot}
  {index : CollisionReplayIndex}

/-- The limits of a short index are small. -/
structure SmallLimits (limits : ReplayIndexAdmissionLimits) : Prop where
  typeGroups : limits.typeGroups.toNat < 2 ^ 32
  valueStorages : limits.valueStorages.toNat < 2 ^ 32
  namespaces : limits.namespaces.toNat < 2 ^ 32
  classes : limits.classes.toNat < 2 ^ 32

theorem DescribedBy.small (h : DescribedBy limits rootSlots index)
    (hrows : index.ownerPartition.length < 2 ^ 32) : SmallLimits limits :=
  ⟨denseFamily_typeGroup.lt_of_mem_iff hrows h.typeGroups,
    denseFamily_value.lt_of_mem_iff hrows h.valueStorages,
    denseFamily_namespace.lt_of_mem_iff hrows h.namespaces,
    denseFamily_class.lt_of_mem_iff hrows h.classes⟩

theorem SmallLimits.pairwise_nonstatements (h : SmallLimits limits) :
    (nonstatements limits).Pairwise (· < ·) ∧
      ∀ owner ∈ nonstatements limits, owner.tag.toNat < 5 := by
  have step : ∀ {front rest : List ReplayOwner} (tag : Nat),
      (front.Pairwise (· < ·) ∧ ∀ owner ∈ front, owner.tag.toNat < tag) →
      rest.Pairwise (· < ·) → (∀ owner ∈ rest, owner.tag.toNat = tag) →
      (front ++ rest).Pairwise (· < ·) ∧ ∀ owner ∈ front ++ rest, owner.tag.toNat < tag + 1 := by
    intro front rest tag hfront hrest htag
    refine ⟨pairwise_append_of_tag tag hfront.1 hrest hfront.2 (fun owner howner =>
      (htag owner howner).ge), forall_mem_append.mpr ⟨fun owner howner => ?_, ?_⟩⟩
    · exact (hfront.2 owner howner).trans (Nat.lt_succ_self tag)
    · exact fun owner howner => (htag owner howner).trans_lt (Nat.lt_succ_self tag)
  have hgroups := @step [] _ 0 ⟨List.Pairwise.nil, by simp⟩
    (denseFamily_typeGroup.pairwise_denseList h.typeGroups.le) denseFamily_typeGroup.tag_of_mem
  have hvalues := step 1 hgroups (denseFamily_value.pairwise_denseList h.valueStorages.le)
    denseFamily_value.tag_of_mem
  have hnamespaces := step 2 hvalues (denseFamily_namespace.pairwise_denseList h.namespaces.le)
    denseFamily_namespace.tag_of_mem
  have hclasses := step 3 hnamespaces (denseFamily_class.pairwise_denseList h.classes.le)
    denseFamily_class.tag_of_mem
  exact step 4 hclasses (pairwise_singleton _ _) (fun owner howner => by
    rw [mem_singleton.mp howner]
    rfl)

theorem DescribedBy.mem_nonstatements (h : DescribedBy limits rootSlots index)
    (hsmall : SmallLimits limits) {owner : ReplayOwner} :
    owner ∈ nonstatements limits ↔ owner ∈ index.ownerPartition ∧ ¬ owner.IsStatement := by
  simp only [nonstatements, mem_append, mem_singleton,
    DenseFamily.mem_denseList hsmall.typeGroups.le, DenseFamily.mem_denseList hsmall.valueStorages.le,
    DenseFamily.mem_denseList hsmall.namespaces.le, DenseFamily.mem_denseList hsmall.classes.le]
  cases owner with
  | typeGroup id => simp [ReplayOwner.IsStatement, h.typeGroups]
  | value id => simp [ReplayOwner.IsStatement, h.valueStorages]
  | «namespace» id => simp [ReplayOwner.IsStatement, h.namespaces]
  | «class» id => simp [ReplayOwner.IsStatement, h.classes]
  | globalObject => simp [ReplayOwner.IsStatement, h.globalObject]
  | statement key => simp [ReplayOwner.IsStatement]

/-- The partition is what the limits describe, and then the statements. -/
theorem DescribedBy.partition_eq (h : DescribedBy limits rootSlots index)
    (hsmall : SmallLimits limits) (hsorted : index.ownerPartition.Pairwise (· < ·)) :
    index.ownerPartition = nonstatements limits ++
      index.ownerPartition.filter (fun owner => owner.IsStatement) := by
  obtain ⟨hfront, htag⟩ := hsmall.pairwise_nonstatements
  refine List.Pairwise.eq_of_mem_iff hsorted (pairwise_append_of_tag 5 hfront
    (hsorted.sublist filter_sublist) htag ?_) (fun owner => ?_)
  · intro owner howner
    obtain ⟨key, rfl⟩ := of_decide_eq_true (mem_filter.mp howner).2
    exact Nat.le_refl 5
  · rw [mem_append, h.mem_nonstatements hsmall, mem_filter, decide_eq_true_eq]
    tauto

theorem SmallLimits.expectedNonstatement_eq (h : SmallLimits limits) :
    expectedNonstatement limits = .ok (nonstatements limits) := by
  rw [expectedNonstatement, denseOwners_eq h.typeGroups, ok_bind, denseOwners_eq h.valueStorages,
    ok_bind, denseOwners_eq h.namespaces, ok_bind, denseOwners_eq h.classes, ok_bind]
  rfl

theorem SmallLimits.expectedNonstatementCount_eq (h : SmallLimits limits) :
    expectedNonstatementCount limits = some (nonstatements limits).length := by
  obtain ⟨hgroups, hvalues, hnamespaces, hclasses⟩ := h
  have hlength : (nonstatements limits).length = limits.typeGroups.toNat
      + limits.valueStorages.toNat + limits.namespaces.toNat + limits.classes.toNat + 1 := by
    simp only [nonstatements, denseList, length_append, length_map, length_range, length_singleton]
  rw [expectedNonstatementCount, hlength]
  exact if_pos (by omega)

/-- **The partition passes** when the limits describe it. -/
theorem admitOwnerPartition_succeeds (h : DescribedBy limits rootSlots index)
    (hsmall : SmallLimits limits) (hsorted : index.ownerPartition.Pairwise (· < ·)) :
    admitOwnerPartition limits index.ownerPartition = .ok (nonstatements limits).length := by
  have hpartition := h.partition_eq hsmall hsorted
  have htake : index.ownerPartition.take (nonstatements limits).length = nonstatements limits := by
    rw [hpartition, take_left]
  have hbounds : ∀ owner ∈ index.ownerPartition, ownerInBounds limits owner := by
    intro owner howner
    cases owner with
    | typeGroup id => exact (h.typeGroups id).mp howner
    | value id => exact (h.valueStorages id).mp howner
    | «namespace» id => exact (h.namespaces id).mp howner
    | «class» id => exact (h.classes id).mp howner
    | globalObject => trivial
    | statement key => exact h.statementFiles key howner
  have hlength : ¬ index.ownerPartition.length < (nonstatements limits).length := by
    rw [hpartition, length_append]
    omega
  have hpass : ¬ (index.ownerPartition.take (nonstatements limits).length ≠ nonstatements limits
      ∨ ¬ index.ownerPartition.IsChain (· < ·)
      ∨ ∃ owner ∈ index.ownerPartition, ¬ ownerInBounds limits owner) := by
    simp only [not_or, not_not, not_exists, not_and]
    exact ⟨htake, isChain_iff_pairwise.mpr hsorted, hbounds⟩
  unfold admitOwnerPartition
  rw [hsmall.expectedNonstatementCount_eq]
  dsimp only
  rw [rejectIf_pass hlength, ok_bind, hsmall.expectedNonstatement_eq, ok_bind, rejectIf_pass hpass]
  rfl

end Partition

/-! ## §3 Root slots -/

variable {limits : ReplayIndexAdmissionLimits} {index : CollisionReplayIndex}

theorem admitRootSlots_succeeds {rootSlots published : List ReplayRootSlot}
    (h : DescribedBy limits published index)
    (hsorted : rootSlots.Pairwise (fun first second => first.name < second.name))
    (hvalid : invalidRootSlot index.ownerPartition rootSlots = none) :
    admitRootSlots limits rootSlots = .ok () := by
  refine rejectIf_pass ?_
  simp only [not_or, not_not, not_exists, not_and]
  refine ⟨fun root hroot => ?_, ?_, fun root hroot => ?_⟩
  · rw [(invalidRootSlot_eq_none hvalid hroot).1]
    exact Bool.false_ne_true
  · exact isChain_iff_pairwise.mpr (pairwise_map.mpr hsorted)
  · obtain ⟨_, hvalue, hty, hnamespace⟩ := invalidRootSlot_eq_none hvalid hroot
    exact ⟨fun id hid => (h.valueStorages id).mp (hvalue id hid),
      fun id hid => (h.typeGroups id).mp (hty id hid),
      fun id hid => (h.namespaces id).mp (hnamespace id hid)⟩

section RootMap

variable {roots : List ReplayRootIdentity}
  (hfun : ∀ first ∈ roots, ∀ second ∈ roots, first.1 = second.1 → first = second)
include hfun

/-- A map of roots with one identity per name. -/
theorem lookup_rootMap (identity : ReplayRootIdentity) :
    (rootMap roots).lookup identity.1 = some identity.2 ↔ identity ∈ roots := by
  induction roots using reverseRecOn with
  | nil => simp [rootMap]
  | append_singleton roots root ih =>
    have hsame : rootMap (roots ++ [root]) = (rootMap roots).insert root.1 root.2 := by
      rw [rootMap, foldl_append]
      rfl
    have hroots := ih (fun first hfirst second hsecond =>
      hfun first (mem_append_left _ hfirst) second (mem_append_left _ hsecond))
    rw [hsame, mem_append, mem_singleton]
    by_cases heq : identity.1 = root.1
    · rw [heq, Finmap.lookup_insert, Option.some.injEq]
      constructor
      · exact fun h => .inr (Prod.ext heq h.symm)
      · intro h
        have hmem : identity ∈ roots ++ [root] := by
          rcases h with hin | rfl
          · exact mem_append_left _ hin
          · exact mem_append_right _ mem_cons_self
        rw [hfun identity hmem root (mem_append_right _ mem_cons_self) heq]
    · rw [Finmap.lookup_insert_of_ne _ heq, hroots]
      constructor
      · exact .inl
      · rintro (hin | rfl)
        · exact hin
        · exact absurd rfl heq

theorem mem_rootMap {name : String} :
    name ∈ rootMap roots ↔ ∃ identity ∈ roots, identity.1 = name := by
  rw [← Finmap.lookup_isSome, Option.isSome_iff_exists]
  constructor
  · rintro ⟨meaning, hmeaning⟩
    exact ⟨(name, meaning), (lookup_rootMap hfun (name, meaning)).mp hmeaning, rfl⟩
  · rintro ⟨identity, hin, rfl⟩
    exact ⟨identity.2, (lookup_rootMap hfun identity).mpr hin⟩

end RootMap

/-- **Root slots pass** when the limits list the published roots. -/
theorem admitRootIndex_succeeds
    {rootSlots published : List ReplayRootSlot} {consumers : List ReplayRootConsumer}
    (hcomplete : CompleteSlots published consumers rootSlots)
    (hpopulated : ∀ root ∈ published, root.Populated)
    (hroots : ∀ identity, identity ∈ limits.roots ↔
      identity ∈ published.map ReplayRootSlot.identity) :
    admitRootIndex limits rootSlots consumers = .ok () := by
  have hname : ∀ first ∈ rootSlots, ∀ second ∈ rootSlots, first.name = second.name →
      first = second := by
    intro first hfirst second hsecond heq
    by_contra hne
    have hsymm : Std.Symm (fun first second : ReplayRootSlot => first.name ≠ second.name) :=
      ⟨fun _ _ => Ne.symm⟩
    exact (hcomplete.sorted.imp ne_of_lt).forall hfirst hsecond hne heq
  have hpublished : ∀ root ∈ published, root ∈ rootSlots := fun root hroot =>
    (hcomplete.mem_iff root).mpr (.inl hroot)
  -- the populated slots are the published ones
  have hmem : ∀ identity, identity ∈ limits.roots ↔ identity ∈
      (rootSlots.filter (fun root => root.Populated)).map ReplayRootSlot.identity := by
    intro identity
    rw [hroots, mem_map, mem_map]
    refine exists_congr (fun root => and_congr_left' ?_)
    rw [mem_filter, decide_eq_true_eq, hcomplete.mem_iff]
    constructor
    · exact fun hroot => ⟨.inl hroot, hpopulated root hroot⟩
    · rintro ⟨hroot | ⟨name, _, _, rfl⟩, hpop⟩
      · exact hroot
      · simp [ReplayRootSlot.Populated] at hpop
  have hfun : ∀ first ∈ limits.roots, ∀ second ∈ limits.roots, first.1 = second.1 →
      first = second := by
    intro first hfirst second hsecond heq
    obtain ⟨root, hroot, rfl⟩ := mem_map.mp ((hroots first).mp hfirst)
    obtain ⟨other, hother, rfl⟩ := mem_map.mp ((hroots second).mp hsecond)
    rw [hname root (hpublished root hroot) other (hpublished other hother) heq]
  have hfun' : ∀ first ∈ (rootSlots.filter (fun root => root.Populated)).map
      ReplayRootSlot.identity, ∀ second ∈ (rootSlots.filter (fun root => root.Populated)).map
      ReplayRootSlot.identity, first.1 = second.1 → first = second := by
    intro first hfirst second hsecond heq
    exact hfun first ((hmem first).mpr hfirst) second ((hmem second).mpr hsecond) heq
  refine rejectIf_pass ?_
  rw [not_or, not_not, not_not]
  constructor
  · refine Finmap.ext_lookup (fun name => Option.ext (fun meaning => ?_))
    rw [lookup_rootMap hfun' (name, meaning), lookup_rootMap hfun (name, meaning), hmem]
  · ext name
    rw [mem_toFinset, mem_toFinset, mem_filter, decide_eq_true_eq, mem_rootMap hfun, mem_map]
    constructor
    · rintro ⟨root, hroot, rfl⟩
      obtain ⟨hroot, hpop⟩ := mem_filter.mp hroot
      rcases (hcomplete.mem_iff root).mp hroot with hin | ⟨name, hconsumed, hout, rfl⟩
      · exact absurd (hpopulated root hin) (of_decide_eq_true hpop)
      · refine ⟨hconsumed, ?_⟩
        rintro ⟨identity, hidentity, heq⟩
        obtain ⟨other, hother, rfl⟩ := mem_map.mp ((hroots identity).mp hidentity)
        exact hout (mem_map.mpr ⟨other, hother, heq⟩)
    · rintro ⟨hconsumed, hout⟩
      refine ⟨{ name := name }, mem_filter.mpr ⟨(hcomplete.mem_iff _).mpr (.inr
        ⟨name, hconsumed, ?_, rfl⟩), by simp [ReplayRootSlot.Populated]⟩, rfl⟩
      intro hin
      obtain ⟨root, hroot, rfl⟩ := mem_map.mp hin
      exact hout ⟨root.identity, (hroots _).mpr (mem_map_of_mem hroot), rfl⟩

variable {rootSlots : List ReplayRootSlot}

/-- Lookups exist for sorted root slots that cover the consumed names. -/
theorem rootSlotLookup_succeeds {consumers : List ReplayRootConsumer}
    (hsorted : rootSlots.Pairwise (fun first second => first.name < second.name))
    (hlength : rootSlots.length < 2 ^ 32)
    (hconsumed : ∀ row ∈ consumers, row.name ∈ rootSlots.map (fun root => root.name)) :
    ∃ lookup, rootSlotLookup rootSlots consumers = .ok lookup := by
  -- the first loop adds the names in order, so none twice
  obtain ⟨lookups, hfirst, hnames⟩ := foldlM_succeeds (f := addRootLookup)
    (fun front lookups => lookups.map Prod.fst = front.map (fun entry => entry.1.name))
    rootSlots.zipIdx [] (rfl : ([] : List (String × ReplayRootLookup)).map Prod.fst = []) (by
      rintro front ⟨root, position⟩ back lookups hsplit hnames
      obtain ⟨rfl, hget⟩ := zipIdx_split hsplit
      have hlt := (List.getElem?_eq_some_iff.mp hget).1
      rw [List.nil_append] at hnames ⊢
      have hnew : root.name ∉ lookups.map Prod.fst := by
        intro hin
        rw [hnames] at hin
        obtain ⟨entry, hentry, heq⟩ := mem_map.mp hin
        have hrows : rootSlots = front.map Prod.fst ++ root :: back.map Prod.fst := by
          rw [← zipIdx_map_fst 0 rootSlots, hsplit, map_append, map_cons]
        rw [hrows] at hsorted
        have hless := (pairwise_append.mp hsorted).2.2 entry.1
          (mem_map_of_mem hentry) root mem_cons_self
        exact absurd heq hless.ne
      refine ⟨lookups ++ [(root.name, root.lookup front.length)], ?_, ?_⟩
      · rw [addRootLookup, checkedU32_eq_ok.mpr ⟨hlt.trans hlength, rfl⟩, ok_bind,
          rejectIf_pass hnew]
        rfl
      · rw [map_append, hnames, map_append]
        rfl)
  rw [nil_append] at hnames
  have hnames' : lookups.map Prod.fst = rootSlots.map (fun root => root.name) := by
    rw [hnames]
    conv_rhs => rw [← zipIdx_map_fst 0 rootSlots, map_map]
    rfl
  -- the second one finds every name that is consumed
  obtain ⟨filled, hsecond, _⟩ := foldlM_succeeds (f := pushRootConsumer)
    (fun _ lookups => lookups.map Prod.fst = rootSlots.map (fun root => root.name))
    consumers [] hnames' (by
      intro front consumer back lookups hsplit hnames
      have hin : consumer.name ∈ lookups.map Prod.fst := by
        rw [hnames]
        exact hconsumed consumer (hsplit ▸ mem_append_right _ mem_cons_self)
      refine ⟨lookups.map (fun entry => if entry.1 = consumer.name then
        (entry.1, entry.2.push consumer.slot consumer.consumer) else entry), ?_, ?_⟩
      · rw [pushRootConsumer, rejectIf_pass (not_not.mpr hin)]
        rfl
      · rw [map_map, ← hnames]
        refine map_congr_left (fun entry _ => ?_)
        simp only [Function.comp]
        split <;> rfl)
  refine ⟨filled.map (fun entry => (entry.1, entry.2.canonical)), ?_⟩
  rw [rootSlotLookup, hfirst, ok_bind, hsecond]
  rfl

/-! ## §4 Statements and baselines -/

theorem statementPartition_append (first second : List ReplayOwner) :
    statementPartition (first ++ second) =
      statementPartition first ++ statementPartition second :=
  filterMap_append

theorem statementPartition_eq_nil {owners : List ReplayOwner}
    (h : ∀ owner ∈ owners, ¬ owner.IsStatement) : statementPartition owners = [] := by
  refine filterMap_eq_nil_iff.mpr (fun owner howner => ?_)
  cases owner with
  | statement key => exact absurd ⟨key, rfl⟩ (h _ howner)
  | _ => rfl

theorem length_statementPartition {owners : List ReplayOwner}
    (h : ∀ owner ∈ owners, owner.IsStatement) :
    (statementPartition owners).length = owners.length := by
  induction owners with
  | nil => rfl
  | cons owner owners ih =>
    obtain ⟨hfirst, hrest⟩ := forall_mem_cons.mp h
    obtain ⟨key, rfl⟩ := hfirst
    rw [statementPartition, filterMap_cons, length_cons, length_cons]
    exact congrArg (· + 1) (ih hrest)

theorem admitStatements_succeeds
    (h : DescribedBy limits rootSlots index) (hsmall : SmallLimits limits)
    (hsorted : index.ownerPartition.Pairwise (· < ·))
    (hstatements : index.statementOwners =
      (statementPartition index.ownerPartition).map (fun key => (key, .statement key))) :
    admitStatements (index.ownerPartition.drop (nonstatements limits).length)
      index.statementOwners = .ok () := by
  have hpartition := h.partition_eq hsmall hsorted
  have hdrop : index.ownerPartition.drop (nonstatements limits).length =
      index.ownerPartition.filter (fun owner => owner.IsStatement) := by
    conv_lhs => rw [hpartition]
    rw [drop_left]
  have hall : ∀ owner ∈ index.ownerPartition.filter (fun owner => owner.IsStatement),
      owner.IsStatement := fun owner howner => of_decide_eq_true (mem_filter.mp howner).2
  have hkeys : statementPartition index.ownerPartition = statementPartition
      (index.ownerPartition.filter (fun owner => owner.IsStatement)) := by
    conv_lhs => rw [hpartition, statementPartition_append, statementPartition_eq_nil
      (fun owner howner => ((h.mem_nonstatements hsmall).mp howner).2), nil_append]
  refine rejectIf_pass ?_
  rw [hdrop, not_or, not_not, not_not, length_map]
  exact ⟨length_statementPartition hall, by rw [hstatements, hkeys]⟩

theorem baselineRecordRanges_succeeds {sha256 : List UInt8 → Digest}
    {partition : List ReplayOwner} {records : List ReplayBaselineRecord}
    (howners : records.map (fun record => record.owner) = partition)
    (hlength : partition.length < 2 ^ 32)
    (hempty : ∀ record ∈ records, ¬ record.owner.IsStatement →
      record.recordCount = 0 ∧ record.digest = emptyBaselineDigest sha256) :
    ∃ ranges, baselineRecordRanges sha256 partition records = .ok ranges := by
  have hsame : records.length = partition.length := by rw [← howners, length_map]
  refine ⟨(partition.zip records).zipIdx.map (fun entry => ⟨entry.2, entry.2 + 1⟩), ?_⟩
  rw [baselineRecordRanges, rejectIf_pass (not_not.mpr hsame), ok_bind]
  refine mapM_ok ?_
  rintro ⟨⟨owner, record⟩, position⟩ hentry
  obtain ⟨_, hlt, hget⟩ := mem_zipIdx hentry
  rw [Nat.zero_add, length_zip] at hlt
  obtain ⟨howner', hrecord'⟩ := Prod.mk.inj (hget.trans getElem_zip)
  have hrecord : record ∈ records := by
    rw [hrecord']
    exact getElem_mem _
  have howner : record.owner = owner := by
    subst howners
    exact (congrArg ReplayBaselineRecord.owner hrecord').trans
      ((getElem_map _).symm.trans howner'.symm)
  have hpass : ¬ (record.owner ≠ owner ∨ (¬ record.owner.IsStatement
      ∧ (record.recordCount ≠ 0 ∨ record.digest ≠ emptyBaselineDigest sha256))) := by
    rintro (hne | ⟨hnot, hbad⟩)
    · exact hne howner
    · obtain ⟨hcount, hdigest⟩ := hempty record hrecord hnot
      exact hbad.elim (fun hne => hne hcount) (fun hne => hne hdigest)
  dsimp only
  rw [rejectIf_pass hpass, ok_bind]
  exact ReplayRowRange.checked_eq_ok.mpr ⟨⟨by omega, by omega⟩, rfl⟩

/-! ## §5 The whole admission -/

/-- **A finished index is accepted** when the limits describe it. -/
theorem admit_finished {sha256 : List UInt8 → Digest}
    {ownerSites : List ReplayOwnerSite}
    (h : FinishedIndex rootSlots ownerSites index)
    (hfew : FewRows index) (hlimits : DescribedBy limits rootSlots index)
    (hbaselines : ∀ record ∈ index.baselineRecords, ¬ record.owner.IsStatement →
      record.recordCount = 0 ∧ record.digest = emptyBaselineDigest sha256) :
    ∃ admitted, admitGeneratedCollisionReplayIndex sha256 index limits none = .ok admitted := by
  have hsmall := hlimits.small hfew.ownerPartition
  have hnodup : index.ownerPartition.Nodup := h.partition_sorted.imp ne_of_lt
  have hconsumed : ∀ row ∈ index.rootSlotConsumers,
      row.name ∈ index.rootSlots.map (fun root => root.name) := fun row hrow =>
    h.slots.consumed hrow
  obtain ⟨components, hsccs, hfirst⟩ := h.sccs
  obtain ⟨rfl, hordinals⟩ := replaySccs_eq_ok.mp hsccs
  have hvalid : ∀ (position : Nat) component, index.sccMembership[position]? = some component →
      component.Valid position := by
    intro position component hcomponent
    have hmem := mem_map_of_mem (f := fun scc : ReplayScc => scc.owners)
      (mem_of_getElem? hcomponent)
    exact ⟨hordinals position component hcomponent, hfirst.nonempty _ hmem, hfirst.sorted _ hmem⟩
  -- one table after the other, in the order of the checks
  obtain ⟨siteRanges, hsites⟩ := ownerSiteRanges_succeeds h.partition_sorted
    (fun site hsite => ⟨hlimits.siteFiles site hsite, (h.sites.valid site hsite).2⟩)
    h.sites.sorted (fun site hsite => (h.sites.valid site hsite).1) h.sites.owned hfew.ownerSites
  obtain ⟨lookup, hlookup⟩ := rootSlotLookup_succeeds h.slots.sorted hfew.rootSlots hconsumed
  obtain ⟨tables, htables⟩ := sccTables_succeeds hnodup hvalid hfirst.nodup hfirst.mem_iff
    hfew.sccMembership hfew.ownerPartition
  have hpartition := sccTables_ok hnodup htables
  have hedges := edgesForward_of_dependencyFirst hpartition
    (fun consumer dependency hedge => (h.rows.edge_mem _ hedge).2.symm) hfirst
  have hrows := forwardRows_componentEdges hpartition hedges
  have hrowsLength : (componentEdges (sccOf index.ownerPartition tables.ownerToScc)
      index.reverseEdges).length < 2 ^ 32 := by
    refine lt_of_le_of_lt ((length_sortDedup_le _).trans ?_) hfew.reverseEdges
    rw [length_map]
    exact length_filter_le _ _
  obtain ⟨reverse, hreverse⟩ := reverseSccTables_succeeds hrows.sorted
    (fun row hrow => (hrows.forward row hrow).trans (hrows.bound row hrow)) hrowsLength
    hfew.sccMembership
  obtain ⟨hconnected, hnext⟩ := admitted_of_dependencyFirst hpartition hedges hfirst
  have hready := admitReadyOrder_succeeds (reverseSccTables_ok hreverse) hrows
    (fun component hcomponent => hfirst.nonempty _ (mem_map_of_mem hcomponent))
    (hrowsLength.trans (by decide)) hnext
  obtain ⟨baselines, hranges⟩ := baselineRecordRanges_succeeds h.baselines hfew.ownerPartition
    hbaselines
  have hforward : ¬ ∃ edge ∈ index.reverseEdges,
      sccOf index.ownerPartition tables.ownerToScc edge.consumer <
        sccOf index.ownerPartition tables.ownerToScc edge.dependency := by
    rintro ⟨edge, hedge, hlt⟩
    have := hedges.forward edge.consumer edge.dependency hedge
    omega
  have hcounters : ¬ (index.unownedDemandCount ≠ 0 ∨ index.invalidOwnerSiteCount ≠ 0
      ∨ index.noncanonicalEdgeCount ≠ 0 ∨ index.typedReferenceCoverageMisses ≠ 0) := by
    simp only [not_or, not_not]
    exact h.counters
  unfold admitGeneratedCollisionReplayIndex
  rw [admitOwnerPartition_succeeds hlimits hsmall h.partition_sorted, ok_bind,
    admitRootSlots_succeeds hlimits h.slots.sorted h.slot_valid, ok_bind, hsites, ok_bind,
    admitRows_eq_ok.mpr ⟨h.rows, hconsumed⟩, ok_bind,
    admitRootIndex_succeeds h.slots hlimits.populated hlimits.roots, ok_bind, hlookup, ok_bind,
    htables, ok_bind]
  dsimp only
  rw [rejectIf_pass hforward, ok_bind, hreverse, ok_bind, admitConnected_eq_ok.mpr hconnected,
    ok_bind, hready, ok_bind,
    admitStatements_succeeds hlimits hsmall h.partition_sorted h.statements, ok_bind, hranges,
    ok_bind, rejectIf_pass hcounters, ok_bind, rejectIf_pass (by simp), ok_bind]
  exact ⟨_, rfl⟩

/-- **Admission is complete**: it accepts an index only with the canonical components and exact
tables, and it accepts every finished index that the limits describe. -/
theorem admission_complete (sha256 : List UInt8 → Digest) :
    (∀ index limits expected admitted,
      admitGeneratedCollisionReplayIndex sha256 index limits expected = .ok admitted →
      AdmittedExactly index admitted) ∧
    ∀ (trace : ReplayDependencyTrace) ownerPartition rootSlots ownerSites baselineRecords
      invalidOwnerSiteCount index limits,
      trace.finish sha256 ownerPartition rootSlots ownerSites baselineRecords
        invalidOwnerSiteCount = .ok index →
      FewRows index → DescribedBy limits rootSlots index →
      (∀ record ∈ index.baselineRecords, ¬ record.owner.IsStatement →
        record.recordCount = 0 ∧ record.digest = emptyBaselineDigest sha256) →
      ∃ admitted, admitGeneratedCollisionReplayIndex sha256 index limits none = .ok admitted := by
  refine ⟨fun index limits expected admitted h => admit_exact h, ?_⟩
  intro trace ownerPartition rootSlots ownerSites baselineRecords invalidOwnerSiteCount index
    limits h hfew hlimits hbaselines
  exact admit_finished (finish_ok h).1 hfew hlimits hbaselines

/-! ## §6 A small index -/

section Sample

/-- One statement that consumes the global object and a name that is not published. -/
def sampleTrace : ReplayDependencyTrace where
  state := {
    consumerDependencies := Std.TreeMap.ofList [(ReplayOwner.statement ⟨0, 3, 0, 0⟩,
      Std.TreeSet.ofList [ReplayDependencyKey.owner .globalObject, .rootSlot "Missing" .value])]
    ownerSites := { ticketSlots := [⟨⟨0, 3, 0, 0⟩, none⟩] } }

/-- SHA-256 on the empty baseline and on the manifest of the sample. -/
def sampleSha256 (bytes : List UInt8) : Digest :=
  if bytes.length = 542 then
    ⟨[101, 201, 20, 68, 54, 200, 208, 47, 107, 126, 58, 47, 154, 16, 164, 148, 44, 53, 163, 118,
      28, 74, 25, 225, 86, 65, 19, 46, 121, 118, 8, 91], rfl⟩
  else
    ⟨[208, 98, 68, 154, 4, 152, 60, 240, 181, 95, 247, 140, 142, 88, 26, 112, 189, 64, 203, 115,
      129, 74, 241, 92, 183, 100, 75, 224, 115, 212, 13, 18], rfl⟩

def sampleFinish : Except ReplayIndexGenerationError CollisionReplayIndex :=
  sampleTrace.finish sampleSha256 [.statement ⟨0, 3, 0, 0⟩, .globalObject] []
    [⟨.globalObject, 0, ⟨0, 1⟩⟩, ⟨.statement ⟨0, 3, 0, 0⟩, 0, ⟨3, 9⟩⟩]
    [⟨.globalObject, 0, emptyBaselineDigest sampleSha256⟩,
      ⟨.statement ⟨0, 3, 0, 0⟩, 0, emptyBaselineDigest sampleSha256⟩] 0

def sampleIndex : CollisionReplayIndex :=
  sampleFinish.toOption.get (by decide +kernel)

def sampleLimits : ReplayIndexAdmissionLimits := ⟨0, 0, 0, 0, 1, []⟩

theorem sampleFinish_eq : sampleFinish = .ok sampleIndex := by
  have hsome : sampleFinish.toOption = some sampleIndex := (Option.some_get _).symm
  cases h : sampleFinish with
  | error error =>
    rw [h] at hsome
    cases hsome
  | ok index =>
    rw [h] at hsome
    exact congrArg Except.ok (Option.some.inj hsome)

theorem sampleIndex_partition :
    sampleIndex.ownerPartition = [.globalObject, .statement ⟨0, 3, 0, 0⟩] := by
  decide +kernel

theorem sampleIndex_fewRows : FewRows sampleIndex :=
  ⟨by decide +kernel, by decide +kernel, by decide +kernel, by decide +kernel, by decide +kernel,
    by decide +kernel, by decide +kernel, by decide +kernel⟩

theorem sampleIndex_describedBy : DescribedBy sampleLimits [] sampleIndex where
  typeGroups id := by simp [sampleIndex_partition, sampleLimits]
  valueStorages id := by simp [sampleIndex_partition, sampleLimits]
  namespaces id := by simp [sampleIndex_partition, sampleLimits]
  classes id := by simp [sampleIndex_partition, sampleLimits]
  globalObject := by simp [sampleIndex_partition]
  statementFiles key hkey := by
    simp only [sampleIndex_partition, mem_cons, ReplayOwner.statement.injEq, reduceCtorEq,
      not_mem_nil, or_false, false_or] at hkey
    rw [hkey]
    decide
  siteFiles := by decide +kernel
  populated := by simp
  roots := by simp [sampleLimits]

theorem admission_complete_sample : ∃ index admitted,
    sampleFinish = .ok index ∧
      admitGeneratedCollisionReplayIndex sampleSha256 index sampleLimits none = .ok admitted ∧
      AdmittedExactly index admitted := by
  obtain ⟨admitted, hadmitted⟩ := (admission_complete sampleSha256).2 _ _ _ _ _ _ sampleIndex
    sampleLimits sampleFinish_eq sampleIndex_fewRows sampleIndex_describedBy (by decide +kernel)
  exact ⟨sampleIndex, admitted, sampleFinish_eq, hadmitted,
    (admission_complete sampleSha256).1 _ _ _ _ hadmitted⟩

end Sample

end Typokat.Replay
