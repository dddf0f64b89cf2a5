import Mathlib.Data.List.Permutation
import Typokat.Types.IntersectionLaws

/-!
# Intersections of Object Types (`typokat-types/src/types/intern/operators.rs`)

Nothing absorbs an object type and it is disjoint from nothing, so the intersection of two of them
is a row over both.  A type is its own intersection with itself.

## Main Results

- `Interner.intersection_of_objects_iff` : the ids that two object types intersect to
- `Interner.intersection_self` : one type twice is that type
-/

namespace Typokat.Types

variable {structuralHash : StructuralKey → Nat} {regular : Prop}

namespace Interner

variable {σ τ : Interner}

/-! ## §1 One type -/

/-- One type twice is that type; only the error type becomes `any`. -/
theorem intersection_self (hσ : σ.Consed structuralHash regular) (hknown : σ.KnowsIntrinsics)
    {p : TypeId} {r : Row} (hp : σ.store.row p = some r)
    (hnone : σ.store.intersectionMembers p = none) (herror : p ≠ σ.wellKnown.error) :
    σ.intersection structuralHash [p, p] = some (p, σ) := by
  have hexists : ∀ member ∈ [p, p], ∃ r, σ.store.row member = some r := by
    intro member hmember
    have heq : member = p := by simpa using hmember
    exact ⟨r, heq ▸ hp⟩
  have hflat : flattened σ.store.intersectionMembers [p, p] = [p, p] := by
    unfold flattened
    simp [expand_of_none hnone]
  rw [intersection_eq structuralHash hσ hknown hexists, hflat]
  congr 1
  unfold intersectionOfFlat
  dsimp only
  rw [if_neg (by simpa using Ne.symm herror)]
  by_cases hnever : p = σ.wellKnown.never
  · rw [if_pos (by simp [hnever]), hnever]
  rw [if_neg (by simpa using Ne.symm hnever)]
  by_cases hany : p = σ.wellKnown.any
  · rw [if_pos (by simp [hany]), hany]
  rw [if_neg (by simpa using Ne.symm hany)]
  by_cases hunknown : p = σ.wellKnown.unknown
  · have hfilter : sortDedup ([p, p].filter (fun m => m != σ.wellKnown.unknown)) = [] := by
      simp [hunknown]
      rfl
    rw [hfilter, hunknown]
    rfl
  · have hfilter : sortDedup ([p, p].filter (fun m => m != σ.wellKnown.unknown)) = [p] := by
      rw [List.filter_eq_self.mpr (by simpa using hunknown)]
      simp [sortDedup]
      rfl
    rw [hfilter]
    simp [hasDefinitelyDisjointMembers]

/-! ## §2 Two object types -/

/-- A constructor finds the structural row with its key. -/
theorem InternSpec.found {key : StructuralKey} {result : TypeId × Interner}
    (h : InternSpec structuralHash regular σ key result) (hσ : σ.Consed structuralHash regular)
    (hexact : key.tag.Exact regular) {id : TypeId} {r : Row} (hr : σ.Structural id r)
    (hkey : r.key = key) : result = (id, σ) := by
  have htag : r.tag.Exact regular := by
    rw [← Row.tag_key, hkey]
    exact hexact
  rcases h with ⟨hsame, r', hr', hkey'⟩ | ⟨r', hkey', -, hnew⟩
  · have hid := hσ.unique id result.1 r r' htag hr hr' (hkey.trans (hkey' hexact).symm)
    exact Prod.ext hid.symm hsame
  · -- a new row has a key of its own
    have htag' : r'.tag.Exact regular := by
      rw [← Row.tag_key, hkey']
      exact hexact
    exact absurd (hkey.trans hkey'.symm) (hnew.fresh htag' id r hr)

theorem tag_of_objectType {s : Store} {id : TypeId} {object : ObjectType}
    (h : s.objectType id = some object) : s.tag id = some .object :=
  Store.tag_of_row ((s.entry_eq_some_iff .objects id object).mp h)

/-- An object type has no domain. -/
theorem hasNoDomain_of_objectType {s : Store} {id : TypeId} {object : ObjectType}
    (h : s.objectType id = some object) : hasNoDomain s id = true := by
  have htag := tag_of_objectType h
  have hunion : s.unionMembers id = none := by
    apply unionMembers_of_tag_ne
    simp [htag]
  have hliteral : s.literalValue id = none := by
    apply if_neg
    simp [htag, SideTable.tag]
  have hkind : s.intrinsicKind id = none := by
    have hinline : s.inlinePayload .intrinsic id = none := by
      apply if_neg
      simp [htag]
    unfold Store.intrinsicKind
    rw [hinline, Option.bind_none]
  unfold hasNoDomain disjointDomain
  simp [hkind, hliteral, hunion]

theorem objectType_ne_wellKnown (hknown : σ.KnowsIntrinsics) {id : TypeId} {object : ObjectType}
    (h : σ.store.objectType id = some object) (kind : IntrinsicKind) :
    id ≠ σ.wellKnown.id kind := by
  rintro rfl
  have htag := tag_of_objectType h
  rw [Store.tag_of_row (hknown.row kind)] at htag
  cases htag

/-- Two different ids in the order of a row. -/
theorem sortDedup_pair {p q : TypeId} (hne : p ≠ q) :
    sortDedup [p, q] = [p, q] ∨ sortDedup [p, q] = [q, p] := by
  rw [← List.perm_pair]
  apply (List.perm_ext_iff_of_nodup (nodup_sortDedup _) (by simpa using hne)).mpr
  intro id
  exact mem_sortDedup

/-- The flat members of two object types. -/
theorem flattened_objects {s : Store} {p q : TypeId} {a b : ObjectType}
    (hp : s.objectType p = some a) (hq : s.objectType q = some b) :
    flattened s.intersectionMembers [p, q] = [p, q] := by
  have hnone : ∀ {id : TypeId} {object : ObjectType}, s.objectType id = some object →
      s.intersectionMembers id = none := by
    intro id object h
    apply intersectionMembers_of_tag_ne
    simp [tag_of_objectType h]
  unfold flattened
  simp [expand_of_none (hnone hp), expand_of_none (hnone hq)]

section Two

variable (hσ : σ.Consed structuralHash regular) (hknown : σ.KnowsIntrinsics) {p q : TypeId}
  (hne : p ≠ q) {a b : ObjectType} (hp : σ.store.objectType p = some a)
  (hq : σ.store.objectType q = some b)
include hσ hknown hne hp hq

/-- **Two object types keep their intersection.** -/
theorem intersection_of_objects :
    σ.intersection structuralHash [p, q] =
        some (σ.internIntersection structuralHash (sortDedup [p, q])) ∧
      σ.store.SetMembers .intersection (sortDedup [p, q]) := by
  have hrows : ∀ member ∈ [p, q], ∃ object, σ.store.objectType member = some object := by
    intro member hmember
    rcases List.mem_cons.mp hmember with rfl | hmember
    · exact ⟨a, hp⟩
    · rw [List.mem_singleton] at hmember
      exact ⟨b, hmember ▸ hq⟩
  have hexists : ∀ member ∈ [p, q], ∃ r, σ.store.row member = some r := by
    intro member hmember
    obtain ⟨object, hobject⟩ := hrows member hmember
    exact ⟨_, (σ.store.entry_eq_some_iff .objects member object).mp hobject⟩
  have hplain : ∀ kind, σ.wellKnown.id kind ∉ [p, q] := by
    intro kind hmem
    obtain ⟨object, hobject⟩ := hrows _ hmem
    exact objectType_ne_wellKnown hknown hobject kind rfl
  have hfilter : [p, q].filter (fun m => m != σ.wellKnown.unknown) = [p, q] := by
    rw [List.filter_eq_self]
    intro member hmember
    rw [bne_iff_ne]
    rintro rfl
    exact hplain .unknown hmember
  have hset : σ.store.SetMembers .intersection (sortDedup [p, q]) := by
    have hflat : ∀ member ∈ [p, q], σ.store.FlatMember .intersection member := by
      intro member hmember
      obtain ⟨object, hobject⟩ := hrows member hmember
      exact ⟨_, tag_of_objectType hobject, by simp⟩
    have hp' : p ∈ sortDedup [p, q] := mem_sortDedup.mpr (by simp)
    have hq' : q ∈ sortDedup [p, q] := mem_sortDedup.mpr (by simp)
    rw [← hfilter]
    apply setMembers_sortDedup hflat
    · rw [hfilter]
      exact List.ne_nil_of_mem hp'
    · intro single hsingle
      rw [hfilter] at hsingle
      rw [hsingle, List.mem_singleton] at hp' hq'
      exact hne (hp'.trans hq'.symm)
  refine ⟨?_, hset⟩
  rw [intersection_eq structuralHash hσ hknown hexists, flattened_objects hp hq]
  congr 1
  have herror := hplain .error
  have hnever := hplain .never
  have hany := hplain .any
  simp only [WellKnown.id] at herror hnever hany
  -- an object type has no leaf domain, so no two are disjoint
  have hpair : ¬ hasDefinitelyDisjointMembers σ.store (sortDedup [p, q]) = true := by
    rw [hasDefinitelyDisjointMembers_iff hσ.unionsFlat (nodup_sortDedup _)]
    rintro ⟨left, hleft, right, -, -, hdisjoint⟩
    obtain ⟨object, hobject⟩ := hrows left (mem_sortDedup.mp hleft)
    rw [definitelyDisjoint_of_noDomain hσ.unionsFlat (hasNoDomain_of_objectType hobject)]
      at hdisjoint
    cases hdisjoint
  unfold intersectionOfFlat
  dsimp only
  rw [if_neg (by simpa using herror), if_neg (by simpa using hnever), if_neg (by simpa using hany),
    hfilter, if_neg hpair]
  have htwo := hset.two_le
  split
  · rename_i hnil
    simp [hnil] at htwo
  · rename_i single hsingle
    simp [hsingle] at htwo
  · rfl

/-- An intersection of two object types is the row over both. -/
theorem intersection_of_objects_iff {c : TypeId} :
    σ.intersection structuralHash [p, q] = some (c, σ) ↔
      σ.store.intersectionMembers c = some (sortDedup [p, q]) := by
  obtain ⟨hintersection, hset⟩ := intersection_of_objects hσ hknown hne hp hq
  rw [hintersection, Option.some.injEq]
  constructor
  · intro h
    have hrow := row_internIntersection hσ hset
    rw [h] at hrow
    exact (σ.store.entry_eq_some_iff .intersections c _).mpr hrow
  · intro h
    have hrow := (σ.store.entry_eq_some_iff .intersections c _).mp h
    apply (internSpec_internIntersection hσ hset).found hσ
      (TypeTag.exact_of_ne (by simp [StructuralKey.tag])) ⟨hrow, ?_⟩ rfl
    cases hreserved : σ.reservedType c with
    | none => rfl
    | some reserved =>
      -- only objects, conditionals and mapped types are ever reserved
      obtain ⟨r, hr, hkind⟩ := hσ.reserved_row c reserved hreserved
      rw [hrow, Option.some.injEq] at hr
      subst hr
      cases hkind

end Two

end Interner

end Typokat.Types
