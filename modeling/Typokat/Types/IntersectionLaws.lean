import Typokat.Types.SetLaws

/-!
# Laws of Intersections (`typokat-types/src/types/intern/operators.rs`)

The dual laws.  An intersection is also reduced: two members that no value can have in common
make it `never`.  The test looks at the sorted members in one direction only, and skips the
members without a domain, but the relation behind it is symmetric and only holds between
members with a domain, so every pair is tested.

## Main Results

- `Interner.definitelyDisjoint_iff` : two members are disjoint when all their leaves are
- `Interner.hasDefinitelyDisjointMembers_iff` : the test sees every pair
- `Interner.intersectionOfFlat_congr` : only the set of flat members matters
- `Interner.intersection_append_intersection` : an intersection is spliced into another
- `Interner.set_types_canonical` : the laws of unions and intersections in every run
-/

namespace Typokat.Types

open List

variable {structuralHash : StructuralKey → Nat} {regular : Prop}

/-! ## §1 Disjoint members -/

theorem F64.eq_comm (x y : F64) : F64.eq x y = F64.eq y x := by
  unfold F64.eq
  rw [Bool.and_comm (!x.isNaN), Bool.and_comm x.isZero, Bool.beq_comm]

theorem LiteralValue.eq_comm (a b : LiteralValue) : LiteralValue.eq a b = LiteralValue.eq b a := by
  cases a <;> cases b <;> simp only [LiteralValue.eq]
  case number.number x y => exact F64.eq_comm x y
  all_goals exact Bool.beq_comm

/-- The unions of the store have members, and these are no unions. -/
def Store.UnionsFlat (s : Store) : Prop :=
  ∀ id members, s.unionMembers id = some members →
    members ≠ [] ∧ ∀ member ∈ members, s.unionMembers member = none

namespace Interner

variable {σ τ : Interner}

theorem disjointLeaves_comm (s : Store) (left right : TypeId) :
    disjointLeaves s left right = disjointLeaves s right left := by
  unfold disjointLeaves
  cases disjointDomain s left with
  | none => cases disjointDomain s right <;> rfl
  | some leftDomain =>
    cases disjointDomain s right with
    | none => rfl
    | some rightDomain =>
      dsimp only
      by_cases hne : leftDomain = rightDomain
      · subst hne
        simp only [ne_eq, not_true_eq_false, if_false]
        cases s.literalValue left with
        | none => cases s.literalValue right <;> rfl
        | some leftValue =>
          cases s.literalValue right with
          | none => rfl
          | some rightValue =>
            dsimp only
            rw [LiteralValue.eq_comm]
      · rw [if_pos hne, if_pos (Ne.symm hne)]

theorem disjointLeaves_of_domain_none {s : Store} {left : TypeId} (h : disjointDomain s left = none)
    (right : TypeId) : disjointLeaves s left right = false := by
  unfold disjointLeaves
  rw [h]

/-- Members that are no unions are compared directly. -/
theorem definitelyDisjoint_leaves {s : Store} {left right : TypeId}
    (hleft : s.unionMembers left = none) (hright : s.unionMembers right = none) (fuel : Nat) :
    definitelyDisjoint s fuel left right = disjointLeaves s left right := by
  cases fuel with
  | zero => rfl
  | succ fuel =>
    unfold definitelyDisjoint
    rw [hleft, hright]

theorem Consed.unionsFlat (hσ : σ.Consed structuralHash regular) :
    σ.store.UnionsFlat := by
  intro id members hmembers
  have hrow := (σ.store.entry_eq_some_iff .unions id members).mp hmembers
  obtain ⟨_, htwo, hflat⟩ := hσ.canonical id _ hrow
  constructor
  · intro hnil
    rw [hnil] at htwo
    simp at htwo
  · intro member hmember
    obtain ⟨tag, htag, hne⟩ := hflat member hmember
    apply unionMembers_of_tag_ne
    rw [htag]
    intro heq
    exact hne (Option.some.inj heq)

section Disjoint

variable {s : Store} (hs : s.UnionsFlat)
include hs

/-- A leaf is disjoint from a member when it is from all leaves of it. -/
theorem definitelyDisjoint_leaf_iff {left : TypeId} (hleft : s.unionMembers left = none)
    (fuel : Nat) (right : TypeId) :
    definitelyDisjoint s (fuel + 1) left right = true ↔
      ∀ b ∈ expand s.unionMembers right, disjointLeaves s left b = true := by
  unfold definitelyDisjoint
  rw [hleft]
  cases hright : s.unionMembers right with
  | none => simp [expand_of_none hright]
  | some members =>
    obtain ⟨hne, hinner⟩ := hs right members hright
    rw [expand_of_some hright, Bool.and_eq_true, all_eq_true]
    constructor
    · intro hboth b hb
      obtain ⟨_, hall⟩ := hboth
      rw [← definitelyDisjoint_leaves hleft (hinner b hb) fuel]
      exact hall b hb
    · intro hall
      refine ⟨by simpa using hne, ?_⟩
      intro b hb
      rw [definitelyDisjoint_leaves hleft (hinner b hb) fuel]
      exact hall b hb

/-- **Two members are disjoint when all their leaves are.** -/
theorem definitelyDisjoint_iff (left right : TypeId) :
    definitelyDisjoint s 2 left right = true ↔
      ∀ a ∈ expand s.unionMembers left, ∀ b ∈ expand s.unionMembers right,
        disjointLeaves s a b = true := by
  cases hleft : s.unionMembers left with
  | none =>
    rw [definitelyDisjoint_leaf_iff hs hleft 1 right, expand_of_none hleft]
    simp
  | some members =>
    obtain ⟨hne, hinner⟩ := hs left members hleft
    unfold definitelyDisjoint
    rw [hleft]
    rw [expand_of_some hleft, Bool.and_eq_true, all_eq_true]
    constructor
    · intro hboth a ha
      obtain ⟨_, hall⟩ := hboth
      exact (definitelyDisjoint_leaf_iff hs (hinner a ha) 0 right).mp (hall a ha)
    · intro hall
      refine ⟨by simpa using hne, ?_⟩
      intro a ha
      exact (definitelyDisjoint_leaf_iff hs (hinner a ha) 0 right).mpr (hall a ha)

theorem definitelyDisjoint_comm (left right : TypeId) :
    definitelyDisjoint s 2 left right = definitelyDisjoint s 2 right left := by
  rw [Bool.eq_iff_iff, definitelyDisjoint_iff hs, definitelyDisjoint_iff hs]
  constructor
  · intro h b hb a ha
    rw [disjointLeaves_comm]
    exact h a ha b hb
  · intro h a ha b hb
    rw [disjointLeaves_comm]
    exact h b hb a ha

theorem expand_ne_nil (id : TypeId) :
    expand s.unionMembers id ≠ [] := by
  cases h : s.unionMembers id with
  | none => simp [expand_of_none h]
  | some members =>
    rw [expand_of_some h]
    exact (hs id members h).1

/-- A member that the test skips is disjoint from nothing. -/
theorem definitelyDisjoint_of_noDomain {left : TypeId} (h : hasNoDomain s left = true)
    (right : TypeId) :
    definitelyDisjoint s 2 left right = false := by
  unfold hasNoDomain at h
  rw [Bool.and_eq_true, Option.isNone_iff_eq_none, Option.isNone_iff_eq_none] at h
  rw [← Bool.not_eq_true, definitelyDisjoint_iff hs, expand_of_none h.2]
  intro hall
  obtain ⟨b, hb⟩ := exists_mem_of_ne_nil _ (expand_ne_nil hs right)
  have hleaf := hall left (by simp) b hb
  rw [disjointLeaves_of_domain_none h.1] at hleaf
  cases hleaf

end Disjoint

/-- Two different members that no value can have in common. -/
def DisjointPair (s : Store) (members : List TypeId) : Prop :=
  ∃ a ∈ members, ∃ b ∈ members, a ≠ b ∧ definitelyDisjoint s 2 a b = true

theorem DisjointPair.mono {s : Store} {xs ys : List TypeId} (hsub : ∀ id ∈ xs, id ∈ ys)
    (h : DisjointPair s xs) : DisjointPair s ys := by
  obtain ⟨a, ha, b, hb, hpair⟩ := h
  exact ⟨a, hsub a ha, b, hsub b hb, hpair⟩

theorem hasDefinitelyDisjointMembers_eq_false_iff {s : Store} (hs : s.UnionsFlat)
    (members : List TypeId) : hasDefinitelyDisjointMembers s members = false ↔
      members.Pairwise (fun a b => definitelyDisjoint s 2 a b = false) := by
  induction members with
  | nil => simp [hasDefinitelyDisjointMembers]
  | cons left rest ih =>
    unfold hasDefinitelyDisjointMembers
    rw [Bool.or_eq_false_iff, ih, pairwise_cons]
    apply and_congr_left
    intro _
    constructor
    · intro h right hright
      -- what is skipped is disjoint from nothing
      cases hleft : hasNoDomain s left with
      | true => exact definitelyDisjoint_of_noDomain hs hleft right
      | false =>
        cases hskip : hasNoDomain s right with
        | true =>
          rw [definitelyDisjoint_comm hs]
          exact definitelyDisjoint_of_noDomain hs hskip left
        | false =>
          rw [hleft, Bool.not_false, Bool.true_and, any_eq_false] at h
          have := h right hright
          simpa [hskip] using this
    · intro h
      rw [Bool.and_eq_false_iff]
      right
      rw [any_eq_false]
      intro right hright
      simp [h right hright]

/-- **The test sees every pair**, in whichever order the members stand. -/
theorem hasDefinitelyDisjointMembers_iff {s : Store} (hs : s.UnionsFlat) {members : List TypeId}
    (hnodup : members.Nodup) :
    hasDefinitelyDisjointMembers s members = true ↔ DisjointPair s members := by
  have hsymm : Std.Symm (fun a b => definitelyDisjoint s 2 a b = false) := by
    constructor
    intro a b h
    rw [definitelyDisjoint_comm hs]
    exact h
  rw [← not_iff_not, Bool.not_eq_true, hasDefinitelyDisjointMembers_eq_false_iff hs]
  unfold DisjointPair
  push Not
  constructor
  · intro hpairs a ha b hb hne
    rw [hpairs.forall ha hb hne]
    simp
  · intro h
    apply hnodup.pairwise_of_forall_ne
    intro a ha b hb hne
    exact Bool.not_eq_true _ ▸ h a ha b hb hne

/-! ## §2 Intersections -/

theorem nodup_sortDedup (ids : List TypeId) : (sortDedup ids).Nodup :=
  (pairwise_sortDedup ids).imp ne_of_lt

variable {flat : List TypeId}

theorem mem_canonicalIntersection {id : TypeId} :
    id ∈ sortDedup (flat.filter (fun m => m != σ.wellKnown.unknown)) ↔
      id ∈ flat ∧ id ≠ σ.wellKnown.unknown := by
  rw [mem_sortDedup, mem_filter, bne_iff_ne]

/-- **Only the members other than `unknown` matter.** -/
theorem intersectionOfFlat_congr (hknown : σ.KnowsIntrinsics) {flat flat' : List TypeId}
    (h : ∀ id, id ≠ σ.wellKnown.unknown → (id ∈ flat ↔ id ∈ flat')) :
    σ.intersectionOfFlat structuralHash flat = σ.intersectionOfFlat structuralHash flat' := by
  have hcontains : ∀ kind, kind ≠ .unknown →
      flat.contains (σ.wellKnown.id kind) = flat'.contains (σ.wellKnown.id kind) := by
    intro kind hkind
    rw [Bool.eq_iff_iff, contains_iff_mem, contains_iff_mem]
    exact h _ (wellKnown_ne hknown hkind)
  have herror := hcontains .error (by simp)
  have hnever := hcontains .never (by simp)
  have hany := hcontains .any (by simp)
  simp only [WellKnown.id] at herror hnever hany
  unfold intersectionOfFlat
  dsimp only
  rw [herror, hnever, hany, sortDedup_filter_congr h]

/-- The ways in which the flat members of an intersection without `any` and `error` make its
    id. -/
inductive IntersectionResult (σ : Interner) (flat : List TypeId) : TypeId × Interner → Prop
  /-- `never` annihilates, and so do disjoint members -/
  | never : (σ.wellKnown.never ∈ flat ∨ DisjointPair σ.store flat) →
      IntersectionResult σ flat (σ.wellKnown.never, σ)
  /-- nothing but `unknown` is intersected -/
  | unknown : (∀ id ∈ flat, id = σ.wellKnown.unknown) →
      IntersectionResult σ flat (σ.wellKnown.unknown, σ)
  /-- one member is left -/
  | single (id : TypeId) : id ∈ flat →
      (∀ other ∈ flat, other = id ∨ other = σ.wellKnown.unknown) →
      IntersectionResult σ flat (id, σ)
  /-- an intersection row over the members other than `unknown` -/
  | row (members : List TypeId) (result : TypeId × Interner) :
      (∀ id, id ∈ members ↔ id ∈ flat ∧ id ≠ σ.wellKnown.unknown) →
      result.2.store.row result.1 = some (.intersection members) →
      IntersectionResult σ flat result

theorem row_internIntersection (hσ : σ.Consed structuralHash regular) {members : List TypeId}
    (hmembers : σ.store.SetMembers .intersection members) :
    (σ.internIntersection structuralHash members).2.store.row
      (σ.internIntersection structuralHash members).1 = some (.intersection members) := by
  have hspec := internSpec_internIntersection hσ hmembers
  obtain ⟨r, hr, hkey⟩ := hspec.structural hσ (TypeTag.exact_of_ne (by simp [StructuralKey.tag]))
  have hkey' : r.key = (Row.intersection members).key := hkey
  have htag : r.tag = .intersection := by
    rw [← Row.tag_key, hkey]
    rfl
  rw [Row.eq_of_key_eq hkey' (by simp [htag])] at hr
  exact hr.1

/-- `unknown` is disjoint from nothing, so dropping it loses no pair. -/
theorem disjointPair_canonicalIntersection (hσ : σ.Consed structuralHash regular)
    (hknown : σ.KnowsIntrinsics) (flat : List TypeId) :
    DisjointPair σ.store (sortDedup (flat.filter (fun m => m != σ.wellKnown.unknown))) ↔
      DisjointPair σ.store flat := by
  constructor
  · exact DisjointPair.mono (fun id hid => (mem_canonicalIntersection.mp hid).1)
  · have hskip : hasNoDomain σ.store σ.wellKnown.unknown = true := by
      have hrow := hknown.row .unknown
      simp only [WellKnown.id] at hrow
      have hliteral : σ.store.literalValue σ.wellKnown.unknown = none := by
        apply if_neg
        simp [Store.tag_of_row hrow, Row.tag, SideTable.tag]
      have hunion : σ.store.unionMembers σ.wellKnown.unknown = none := by
        apply unionMembers_of_tag_ne
        simp [Store.tag_of_row hrow, Row.tag]
      unfold hasNoDomain disjointDomain
      simp [Store.intrinsicKind_of_row hrow, hliteral, hunion]
    intro hpair
    obtain ⟨a, ha, b, hb, hne, hdisjoint⟩ := hpair
    refine ⟨a, mem_canonicalIntersection.mpr ⟨ha, ?_⟩, b, mem_canonicalIntersection.mpr ⟨hb, ?_⟩,
      hne, hdisjoint⟩
    · intro heq
      rw [heq, definitelyDisjoint_of_noDomain hσ.unionsFlat hskip] at hdisjoint
      cases hdisjoint
    · intro heq
      rw [heq, definitelyDisjoint_comm hσ.unionsFlat,
        definitelyDisjoint_of_noDomain hσ.unionsFlat hskip] at hdisjoint
      cases hdisjoint

/-- An annihilated intersection. -/
theorem intersectionOfFlat_never (hσ : σ.Consed structuralHash regular) (hknown : σ.KnowsIntrinsics)
    (hany : σ.wellKnown.any ∉ flat) (herror : σ.wellKnown.error ∉ flat)
    (h : σ.wellKnown.never ∈ flat ∨ DisjointPair σ.store flat) :
    σ.intersectionOfFlat structuralHash flat = (σ.wellKnown.never, σ) := by
  unfold intersectionOfFlat
  rw [if_neg (by simpa using herror)]
  by_cases hnever : σ.wellKnown.never ∈ flat
  · rw [if_pos (by simpa using hnever)]
  · have hpair := (disjointPair_canonicalIntersection hσ hknown flat).mpr (h.resolve_left hnever)
    rw [if_neg (by simpa using hnever), if_neg (by simpa using hany),
      if_pos ((hasDefinitelyDisjointMembers_iff hσ.unionsFlat (nodup_sortDedup _)).mpr hpair)]

theorem intersectionResult_intersectionOfFlat (structuralHash : StructuralKey → Nat)
    (hσ : σ.Consed structuralHash regular)
    (hknown : σ.KnowsIntrinsics)
    (hflat : ∀ member ∈ flat, σ.store.FlatMember .intersection member)
    (hany : σ.wellKnown.any ∉ flat) (herror : σ.wellKnown.error ∉ flat) :
    IntersectionResult σ flat (σ.intersectionOfFlat structuralHash flat) := by
  by_cases hnever : σ.wellKnown.never ∈ flat ∨ DisjointPair σ.store flat
  · rw [intersectionOfFlat_never hσ hknown hany herror hnever]
    exact .never hnever
  · rw [not_or] at hnever
    have hpair : ¬ hasDefinitelyDisjointMembers σ.store
        (sortDedup (flat.filter (fun m => m != σ.wellKnown.unknown))) = true := by
      rw [hasDefinitelyDisjointMembers_iff hσ.unionsFlat (nodup_sortDedup _),
        disjointPair_canonicalIntersection hσ hknown]
      exact hnever.2
    have hmem := fun id => @mem_canonicalIntersection σ flat id
    unfold intersectionOfFlat
    rw [if_neg (by simpa using herror), if_neg (by simpa using hnever.1),
      if_neg (by simpa using hany), if_neg hpair]
    split
    · rename_i hnil
      apply IntersectionResult.unknown
      intro id hid
      by_contra hne
      have := (hmem id).mpr ⟨hid, hne⟩
      rw [hnil] at this
      cases this
    · rename_i single hsingle
      have hone := (hmem single).mp (by simp [hsingle])
      apply IntersectionResult.single single hone.1
      intro other hother
      by_cases hunknown : other = σ.wellKnown.unknown
      · exact .inr hunknown
      · have := (hmem other).mpr ⟨hother, hunknown⟩
        rw [hsingle] at this
        exact .inl (mem_singleton.mp this)
    · rename_i hnil hsingle
      apply IntersectionResult.row _ _ hmem
      exact row_internIntersection hσ (setMembers_sortDedup hflat hnil hsingle)

/-- The members of an intersection of the store are flat. -/
theorem flat_intersectionMembers (hσ : σ.Consed structuralHash regular) {id : TypeId}
    {members : List TypeId} (h : σ.store.intersectionMembers id = some members) :
    ∀ member ∈ members, σ.store.FlatMember .intersection member := by
  have hrow := (σ.store.entry_eq_some_iff .intersections id members).mp h
  exact (hσ.canonical id _ hrow).flat

/-- The flat members of an intersection of types of the store. -/
theorem flatMember_of_mem_flattened_intersection (hσ : σ.Consed structuralHash regular)
    {members : List TypeId} (hrows : ∀ member ∈ members, ∃ r, σ.store.row member = some r)
    {id : TypeId} (hid : id ∈ flattened σ.store.intersectionMembers members) :
    σ.store.FlatMember .intersection id := by
  obtain ⟨member, hmember, hexpand⟩ := mem_flattened.mp hid
  obtain ⟨r, hr⟩ := hrows member hmember
  cases hnested : σ.store.intersectionMembers member with
  | none =>
    rw [expand_of_none hnested, mem_singleton] at hexpand
    rw [hexpand]
    exact flatMember_of_entry_none (t := .intersections) hσ.wellFormed (Store.tag_of_row hr)
      hnested
  | some inner =>
    rw [expand_of_some hnested] at hexpand
    exact flat_intersectionMembers hσ hnested id hexpand

/-- An intersection of types of the store is the canonical intersection of its flat
    members. -/
theorem intersection_eq (structuralHash : StructuralKey → Nat)
    (hσ : σ.Consed structuralHash regular) (hknown : σ.KnowsIntrinsics)
    {members : List TypeId} (hrows : ∀ member ∈ members, ∃ r, σ.store.row member = some r) :
    σ.intersection structuralHash members = some (σ.intersectionOfFlat structuralHash
      (flattened σ.store.intersectionMembers members)) := by
  have hexpands : ∀ member ∈ members, Expands σ.store σ.store.intersectionMembers member := by
    intro member hmember
    obtain ⟨r, hr⟩ := hrows member hmember
    refine ⟨⟨r.tag, Store.tag_of_row hr⟩, ?_⟩
    intro inner hinner other hother
    obtain ⟨tag, htag, hne⟩ := flat_intersectionMembers hσ hinner other hother
    refine ⟨?_, tag, htag⟩
    apply intersectionMembers_of_tag_ne
    rw [htag]
    intro heq
    exact hne (Option.some.inj heq)
  obtain ⟨flat, hflatten, hmem⟩ := flatten_spec [] hexpands le_rfl
  unfold intersection flattenMembers
  rw [hflatten, Option.map_some]
  congr 1
  apply intersectionOfFlat_congr hknown
  intro id _
  rw [hmem]
  simp [flattened]

/-- An intersection denotes a row. -/
theorem row_intersectionOfFlat (structuralHash : StructuralKey → Nat)
    (hσ : σ.Consed structuralHash regular)
    (hknown : σ.KnowsIntrinsics)
    (hflat : ∀ member ∈ flat, σ.store.FlatMember .intersection member)
    (hany : σ.wellKnown.any ∉ flat) (herror : σ.wellKnown.error ∉ flat) :
    ∃ r, (σ.intersectionOfFlat structuralHash flat).2.store.row
      (σ.intersectionOfFlat structuralHash flat).1 = some r := by
  have hresult := intersectionResult_intersectionOfFlat structuralHash hσ
    hknown hflat hany herror
  generalize σ.intersectionOfFlat structuralHash flat = result at hresult ⊢
  cases hresult with
  | never h => exact ⟨_, hknown.row .never⟩
  | unknown h => exact ⟨_, hknown.row .unknown⟩
  | single single hsingle h =>
    obtain ⟨tag, htag, _⟩ := hflat single hsingle
    obtain ⟨r, hr, _⟩ := row_of_tag hσ htag
    exact ⟨r, hr⟩
  | row members result hmembers hrow => exact ⟨_, hrow⟩

theorem expand_wellKnown_intersection (hknown : σ.KnowsIntrinsics) (kind : IntrinsicKind) :
    expand σ.store.intersectionMembers (σ.wellKnown.id kind) = [σ.wellKnown.id kind] :=
  expand_wellKnown (t := .intersections) hknown (by simp [SideTable.tag])
    (fun _ => intersectionMembers_of_tag_ne) kind

/-- The members of an intersection that is not annihilated are the flat ones without
    `unknown`. -/
theorem mem_expand_intersectionOfFlat (structuralHash : StructuralKey → Nat)
    (hσ : σ.Consed structuralHash regular)
    (hknown : σ.KnowsIntrinsics)
    (hflat : ∀ member ∈ flat, σ.store.FlatMember .intersection member)
    (hany : σ.wellKnown.any ∉ flat) (herror : σ.wellKnown.error ∉ flat)
    (hnever : ¬ (σ.wellKnown.never ∈ flat ∨ DisjointPair σ.store flat)) {id : TypeId}
    (hid : id ≠ σ.wellKnown.unknown) :
    id ∈ expand (σ.intersectionOfFlat structuralHash flat).2.store.intersectionMembers
      (σ.intersectionOfFlat structuralHash flat).1 ↔ id ∈ flat := by
  have hresult := intersectionResult_intersectionOfFlat structuralHash hσ
    hknown hflat hany herror
  generalize σ.intersectionOfFlat structuralHash flat = result at hresult ⊢
  cases hresult with
  | never h => exact absurd h hnever
  | unknown hall =>
    have hexpand := expand_wellKnown_intersection hknown .unknown
    simp only [WellKnown.id] at hexpand
    rw [hexpand, mem_singleton]
    exact ⟨fun heq => absurd heq hid, fun hmem => absurd (hall id hmem) hid⟩
  | single single hsingle hall =>
    obtain ⟨tag, htag, hne⟩ := hflat single hsingle
    have hnone : σ.store.intersectionMembers single = none := by
      apply intersectionMembers_of_tag_ne
      rw [htag]
      intro heq
      exact hne (Option.some.inj heq)
    rw [expand_of_none hnone, mem_singleton]
    constructor
    · intro heq
      rw [heq]
      exact hsingle
    · intro hmem
      exact (hall id hmem).resolve_right hid
  | row members result hmembers hrow =>
    have hsome : result.2.store.intersectionMembers result.1 = some members :=
      (result.2.store.entry_eq_some_iff .intersections result.1 members).mpr hrow
    rw [expand_of_some hsome, hmembers]
    exact ⟨fun h => h.1, fun h => ⟨h, hid⟩⟩

/-- **An intersection among the members can be replaced by its own members.** -/
theorem intersection_append_intersection (hσ : σ.Consed structuralHash regular)
    (hknown : σ.KnowsIntrinsics) {xs ys : List TypeId}
    (hxs : ∀ member ∈ xs, ∃ r, σ.store.row member = some r)
    (hys : ∀ member ∈ ys, ∃ r, σ.store.row member = some r)
    (hplain : ∀ id ∈ flattened σ.store.intersectionMembers (xs ++ ys),
      id ≠ σ.wellKnown.any ∧ id ≠ σ.wellKnown.error) {made : TypeId}
    (h : σ.intersection structuralHash ys = some (made, σ)) :
    σ.intersection structuralHash (xs ++ [made]) = σ.intersection structuralHash (xs ++ ys) := by
  have hintersection := intersection_eq structuralHash hσ hknown hys
  rw [h, Option.some.injEq] at hintersection
  have hflat : ∀ member ∈ flattened σ.store.intersectionMembers ys,
      σ.store.FlatMember .intersection member :=
    fun member hmember => flatMember_of_mem_flattened_intersection hσ hys hmember
  rw [flattened_append] at hplain
  have hany : σ.wellKnown.any ∉ flattened σ.store.intersectionMembers xs ++
      flattened σ.store.intersectionMembers ys := fun hmem => (hplain _ hmem).1 rfl
  have herror : σ.wellKnown.error ∉ flattened σ.store.intersectionMembers xs ++
      flattened σ.store.intersectionMembers ys := fun hmem => (hplain _ hmem).2 rfl
  have hanyY : σ.wellKnown.any ∉ flattened σ.store.intersectionMembers ys :=
    fun hmem => hany (mem_append_right _ hmem)
  have herrorY : σ.wellKnown.error ∉ flattened σ.store.intersectionMembers ys :=
    fun hmem => herror (mem_append_right _ hmem)
  obtain ⟨r, hmade⟩ := row_intersectionOfFlat structuralHash hσ hknown hflat
    hanyY herrorY
  rw [← hintersection] at hmade
  have hone : ∀ member ∈ [made], ∃ r, σ.store.row member = some r := by
    intro member hmember
    rw [mem_singleton.mp hmember]
    exact ⟨r, hmade⟩
  rw [intersection_eq _ hσ hknown (forall_mem_append.mpr ⟨hxs, hys⟩),
    intersection_eq _ hσ hknown (forall_mem_append.mpr ⟨hxs, hone⟩), flattened_append,
    flattened_append, flattened_singleton]
  -- a flat part that collapses to `never` takes the whole with it
  congr 1
  by_cases hnever : σ.wellKnown.never ∈ flattened σ.store.intersectionMembers ys ∨
      DisjointPair σ.store (flattened σ.store.intersectionMembers ys)
  · -- both sides are annihilated
    rw [intersectionOfFlat_never hσ hknown hanyY herrorY hnever, Prod.mk.injEq] at hintersection
    have hexpand := expand_wellKnown_intersection hknown .never
    simp only [WellKnown.id] at hexpand
    have hne : ∀ kind, kind ≠ .never → σ.wellKnown.id kind ≠ σ.wellKnown.never :=
      fun kind hkind => wellKnown_ne hknown hkind
    have hanyNe := hne .any (by simp)
    have herrorNe := hne .error (by simp)
    simp only [WellKnown.id] at hanyNe herrorNe
    rw [hintersection.1, hexpand, intersectionOfFlat_never hσ hknown,
      intersectionOfFlat_never hσ hknown hany herror]
    · rcases hnever with hnever | hnever
      · exact .inl (mem_append_right _ hnever)
      · exact .inr (hnever.mono (fun id hid => mem_append_right _ hid))
    · intro hmem
      rcases mem_append.mp hmem with hmem | hmem
      · exact hany (mem_append_left _ hmem)
      · exact hanyNe (mem_singleton.mp hmem)
    · intro hmem
      rcases mem_append.mp hmem with hmem | hmem
      · exact herror (mem_append_left _ hmem)
      · exact herrorNe (mem_singleton.mp hmem)
    · left
      simp
  · apply intersectionOfFlat_congr hknown
    intro id hid
    have hmem := mem_expand_intersectionOfFlat structuralHash hσ hknown hflat
      hanyY herrorY hnever hid
    rw [← hintersection] at hmem
    rw [mem_append, mem_append, hmem]

/-! ## §3 The laws in every run -/

/-- **Splicing in one interner is splicing in a run**, whichever side is made first. -/
theorem splice_laws (op : Interner → List TypeId → Option (TypeId × Interner))
    {xs ys : List TypeId} (hσ : σ.Consed structuralHash regular)
    (hop : ∀ members, Interning structuralHash regular (fun σ => op σ members))
    (hdefined : ∀ τ, Extends σ τ → τ.Consed structuralHash regular →
      (∃ result, op τ ys = some result) ∧ ∃ result, op τ (xs ++ ys) = some result)
    (hsplice : ∀ τ made, Extends σ τ → τ.Consed structuralHash regular →
      op τ ys = some (made, τ) → op τ (xs ++ [made]) = op τ (xs ++ ys)) :
    (∃ inner σ₁ result σ₂, op σ ys = some (inner, σ₁) ∧
      op σ₁ (xs ++ [inner]) = some (result, σ₂) ∧ op σ₂ (xs ++ ys) = some (result, σ₂)) ∧
    ∃ result σ₁ inner σ₂, op σ (xs ++ ys) = some (result, σ₁) ∧
      op σ₁ ys = some (inner, σ₂) ∧ op σ₂ (xs ++ [inner]) = some (result, σ₂) := by
  constructor
  · obtain ⟨⟨inner, σ₁⟩, hinner⟩ := (hdefined σ (.refl σ) hσ).1
    have hmade := hop ys σ hσ _ hinner
    have hσ₁ := hmade.grows.consed hσ
    have hagain := hmade.replay σ₁ hσ₁ (.refl σ₁)
    obtain ⟨⟨result, σ₂⟩, hresult⟩ := (hdefined σ₁ hmade.grows.grown hσ₁).2
    have hmade' := hop (xs ++ ys) σ₁ hσ₁ _ hresult
    refine ⟨inner, σ₁, result, σ₂, hinner, ?_, ?_⟩
    · exact (hsplice σ₁ inner hmade.grows.grown hσ₁ hagain).trans hresult
    · exact hmade'.replay σ₂ (hmade'.grows.consed hσ₁) (.refl σ₂)
  · obtain ⟨⟨result, σ₁⟩, hresult⟩ := (hdefined σ (.refl σ) hσ).2
    have hmade := hop (xs ++ ys) σ hσ _ hresult
    have hσ₁ := hmade.grows.consed hσ
    obtain ⟨⟨inner, σ₂⟩, hinner⟩ := (hdefined σ₁ hmade.grows.grown hσ₁).1
    have hmade' := hop ys σ₁ hσ₁ _ hinner
    have hσ₂ := hmade'.grows.consed hσ₁
    have hext := hmade.grows.grown.trans hmade'.grows.grown
    refine ⟨result, σ₁, inner, σ₂, hresult, hinner, ?_⟩
    rw [hsplice σ₂ inner hext hσ₂ (hmade'.replay σ₂ hσ₂ (.refl σ₂))]
    exact hmade.replay σ₂ hσ₂ hmade'.grows.grown

section Laws

variable (structuralHash) (σ : Interner) (xs ys : List TypeId)

/-- What a union does not depend on. -/
structure UnionLaws : Prop where
  /-- order and repetition, now and later -/
  congr : (∀ id, id ∈ xs ↔ id ∈ ys) → ∃ result σ₁, σ.union structuralHash xs = some (result, σ₁) ∧
    σ.union structuralHash ys = some (result, σ₁) ∧ σ₁.union structuralHash ys = some (result, σ₁)
  /-- nesting, with the nested union made first -/
  nested_first : ∃ inner σ₁ result σ₂, σ.union structuralHash ys = some (inner, σ₁) ∧
    σ₁.union structuralHash (xs ++ [inner]) = some (result, σ₂) ∧
    σ₂.union structuralHash (xs ++ ys) = some (result, σ₂)
  /-- nesting, with the flat union made first -/
  flat_first : ∃ result σ₁ inner σ₂, σ.union structuralHash (xs ++ ys) = some (result, σ₁) ∧
    σ₁.union structuralHash ys = some (inner, σ₂) ∧
    σ₂.union structuralHash (xs ++ [inner]) = some (result, σ₂)
  /-- anything but the members other than `never` -/
  eq_iff : (∀ id ∈ flattened σ.store.unionMembers (xs ++ ys),
      id ≠ σ.wellKnown.any ∧ id ≠ σ.wellKnown.error ∧ id ≠ σ.wellKnown.unknown) →
    ∃ x σ₁ y σ₂, σ.union structuralHash xs = some (x, σ₁) ∧
      σ₁.union structuralHash ys = some (y, σ₂) ∧
      (x = y ↔ ∀ id, id ≠ σ.wellKnown.never →
        (id ∈ flattened σ.store.unionMembers xs ↔ id ∈ flattened σ.store.unionMembers ys))

/-- What an intersection does not depend on, and when it is empty. -/
structure IntersectionLaws : Prop where
  /-- order and repetition, now and later -/
  congr : (∀ id, id ∈ xs ↔ id ∈ ys) → ∃ result σ₁,
    σ.intersection structuralHash xs = some (result, σ₁) ∧
    σ.intersection structuralHash ys = some (result, σ₁) ∧
    σ₁.intersection structuralHash ys = some (result, σ₁)
  /-- nesting, with the nested intersection made first -/
  nested_first : ∃ inner σ₁ result σ₂, σ.intersection structuralHash ys = some (inner, σ₁) ∧
    σ₁.intersection structuralHash (xs ++ [inner]) = some (result, σ₂) ∧
    σ₂.intersection structuralHash (xs ++ ys) = some (result, σ₂)
  /-- nesting, with the flat intersection made first -/
  flat_first : ∃ result σ₁ inner σ₂,
    σ.intersection structuralHash (xs ++ ys) = some (result, σ₁) ∧
    σ₁.intersection structuralHash ys = some (inner, σ₂) ∧
    σ₂.intersection structuralHash (xs ++ [inner]) = some (result, σ₂)
  /-- two members are disjoint -/
  disjoint : DisjointPair σ.store (flattened σ.store.intersectionMembers (xs ++ ys)) →
    σ.intersection structuralHash (xs ++ ys) = some (σ.wellKnown.never, σ)

variable {structuralHash σ xs ys}

section Laws

variable (hσ : σ.Consed structuralHash regular) (hknown : σ.KnowsIntrinsics)
  (hxs : ∀ member ∈ xs, ∃ r, σ.store.row member = some r)
  (hys : ∀ member ∈ ys, ∃ r, σ.store.row member = some r)
include hσ hknown hxs hys

theorem unionLaws :
    UnionLaws structuralHash σ xs ys := by
  have hrows : ∀ {τ : Interner}, Extends σ τ →
      ∀ member ∈ xs ++ ys, ∃ r, τ.store.row member = some r := by
    intro τ hext
    exact rows_extends hext (forall_mem_append.mpr ⟨hxs, hys⟩)
  obtain ⟨hnested, hflat⟩ := splice_laws (Interner.union structuralHash) hσ interning_union
    (fun τ hext hτ => ⟨⟨_, (union_eq _ hτ (rows_extends hext hys)).1⟩,
      ⟨_, (union_eq _ hτ (hrows hext)).1⟩⟩)
    (fun τ made hext hτ hmade => union_append_union hτ (hknown.mono hext) (rows_extends hext hxs)
      (rows_extends hext hys) hmade)
  refine ⟨?_, hnested, hflat, union_eq_iff hσ hknown hxs hys⟩
  intro hsame
  obtain ⟨hx, _⟩ := union_eq structuralHash hσ hxs
  obtain ⟨hy, _⟩ := union_eq structuralHash hσ hys
  rw [unionOfFlat_congr_of_ne hknown (fun id _ => mem_flattened_congr hsame id)] at hx
  have hmade := interning_union ys σ hσ _ hy
  exact ⟨_, _, hx, hy, hmade.replay _ (hmade.grows.consed hσ) (.refl _)⟩

theorem intersectionLaws (hplain : ∀ id ∈ flattened σ.store.intersectionMembers (xs ++ ys),
      id ≠ σ.wellKnown.any ∧ id ≠ σ.wellKnown.error) :
    IntersectionLaws structuralHash σ xs ys := by
  have hboth : ∀ member ∈ xs ++ ys, ∃ r, σ.store.row member = some r :=
    forall_mem_append.mpr ⟨hxs, hys⟩
  obtain ⟨hnested, hflat⟩ := splice_laws (Interner.intersection structuralHash) hσ
    interning_intersection
    (fun τ hext hτ => ⟨⟨_, intersection_eq _ hτ (hknown.mono hext) (rows_extends hext hys)⟩,
      ⟨_, intersection_eq _ hτ (hknown.mono hext) (rows_extends hext hboth)⟩⟩)
    (by
      intro τ made hext hτ hmade
      apply intersection_append_intersection hτ (hknown.mono hext) (rows_extends hext hxs)
        (rows_extends hext hys) _ hmade
      rw [flattened_extends Store.intersectionMembers
        (fun id r hr => hext.entry_eq hr .intersections) hboth, hext.wellKnown]
      exact hplain)
  refine ⟨?_, hnested, hflat, ?_⟩
  · intro hsame
    have hx := intersection_eq structuralHash hσ hknown hxs
    have hy := intersection_eq structuralHash hσ hknown hys
    rw [intersectionOfFlat_congr hknown (fun id _ => mem_flattened_congr hsame id)] at hx
    have hmade := interning_intersection ys σ hσ _ hy
    exact ⟨_, _, hx, hy, hmade.replay _ (hmade.grows.consed hσ) (.refl _)⟩
  · intro hpair
    rw [intersection_eq _ hσ hknown hboth, intersectionOfFlat_never hσ hknown
      (fun hmem => (hplain _ hmem).1 rfl) (fun hmem => (hplain _ hmem).2 rfl) (.inr hpair)]

end Laws

end Laws

/-- **Unions and intersections are canonical in every run.** -/
theorem set_types_canonical (hσ : σ.Reachable structuralHash) {xs ys : List TypeId}
    (hxs : ∀ member ∈ xs, ∃ r, σ.store.row member = some r)
    (hys : ∀ member ∈ ys, ∃ r, σ.store.row member = some r) :
    UnionLaws structuralHash σ xs ys ∧
    ((∀ id ∈ flattened σ.store.intersectionMembers (xs ++ ys),
        id ≠ σ.wellKnown.any ∧ id ≠ σ.wellKnown.error) →
      IntersectionLaws structuralHash σ xs ys) ∧
    (∀ id members, σ.store.row id = some (.union members) →
      σ.store.SetMembers .union members) ∧
    ∀ id members, σ.store.row id = some (.intersection members) →
      σ.store.SetMembers .intersection members := by
  have hknown := hσ.knowsIntrinsics
  refine ⟨unionLaws hσ.consed hknown hxs hys, intersectionLaws hσ.consed hknown hxs hys, ?_, ?_⟩
  · intro id members hrow
    exact hσ.consed.canonical id _ hrow
  · intro id members hrow
    exact hσ.consed.canonical id _ hrow

/-- The laws for `string | T`, `number`, `number & T` and `T`. -/
theorem set_types_canonical_nested :
    ∃ σ : Interner, σ.Reachable (fun _ => 0) ∧ σ.store.unionMembers 20 = some [9, 19] ∧
      σ.store.intersectionMembers 21 = some [8, 19] ∧
      UnionLaws (fun _ => 0) σ [20, 8] [21, 19] ∧
      IntersectionLaws (fun _ => 0) σ [20, 8] [21, 19] := by
  obtain ⟨reached, hrun, hunion, hintersection, hxs, hys, hplain⟩ := exists_of_run
    (r := runHistory (fun _ => 0) 0
      [.internTypeParam 0 "T", .union [9, 19], .intersection [19, 8]] (withIntrinsics (fun _ => 0)))
    (P := fun reached => reached.2.store.unionMembers 20 = some [9, 19] ∧
      reached.2.store.intersectionMembers 21 = some [8, 19] ∧
      (∀ member ∈ [20, 8], (reached.2.store.row member).isSome = true) ∧
      (∀ member ∈ [21, 19], (reached.2.store.row member).isSome = true) ∧
      ∀ id ∈ flattened reached.2.store.intersectionMembers ([20, 8] ++ [21, 19]),
        id ≠ reached.2.wellKnown.any ∧ id ≠ reached.2.wellKnown.error) (by decide +kernel)
  have hreached : reached.2.Reachable (fun _ => 0) := ⟨0, _, reached.1, hrun⟩
  have hlaws := set_types_canonical hreached
    (fun member hmember => Option.isSome_iff_exists.mp (hxs member hmember))
    (fun member hmember => Option.isSome_iff_exists.mp (hys member hmember))
  exact ⟨reached.2, hreached, hunion, hintersection, hlaws.1, hlaws.2.1 hplain⟩

end Interner

end Typokat.Types
