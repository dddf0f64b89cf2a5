import Typokat.Types.Unions

/-!
# Laws of Unions (`typokat-types/src/types/intern/operators.rs`)

A union only depends on its flattened members as a set.  Order and repetition do not matter,
a union among the members can be replaced by its own members, and two unions are one type
exactly when their members other than `never` are the same.

The laws are stated for the flat lists first, where they are laws of the canonical form, and
then for the operation in a running interner: what was built once is found again, so both
sides of a law get one id.

## Main Results

- `Interner.unionOfFlat_congr` : only the set of flat members matters
- `Interner.union_append_union` : a union is spliced into the one around it
- `Interner.union_eq_iff` : when two unions are one type
-/

namespace Typokat.Types

open List

variable {structuralHash : StructuralKey → Nat} {regular : Prop}

namespace Interner

variable {σ τ : Interner}

/-! ## §1 Flat members -/

variable (nested : TypeId → Option (List TypeId))

/-- The members with every nested set type of one kind replaced by its own members. -/
def flattened (members : List TypeId) : List TypeId :=
  members.flatMap (expand nested)

theorem mem_flattened {nested : TypeId → Option (List TypeId)} {members : List TypeId} {id : TypeId} :
    id ∈ flattened nested members ↔ ∃ member ∈ members, id ∈ expand nested member :=
  mem_flatMap

theorem flattened_append (xs ys : List TypeId) :
    flattened nested (xs ++ ys) = flattened nested xs ++ flattened nested ys := by
  simp [flattened]

theorem flattened_singleton (member : TypeId) :
    flattened nested [member] = expand nested member := by
  simp [flattened]

/-- Members that are the same as a set are the same when flat. -/
theorem mem_flattened_congr {nested : TypeId → Option (List TypeId)} {xs ys : List TypeId}
    (h : ∀ id, id ∈ xs ↔ id ∈ ys) (id : TypeId) :
    id ∈ flattened nested xs ↔ id ∈ flattened nested ys := by
  simp [mem_flattened, h]

theorem sortDedup_congr {xs ys : List TypeId} (h : ∀ id, id ∈ xs ↔ id ∈ ys) :
    sortDedup xs = sortDedup ys := by
  unfold sortDedup
  congr 1
  ext id
  simp [h]

/-- Sorting and deduplicating one list with a filter, or another with the same filtered set. -/
theorem sortDedup_filter_congr {xs ys : List TypeId} {unit : TypeId}
    (h : ∀ id, id ≠ unit → (id ∈ xs ↔ id ∈ ys)) :
    sortDedup (xs.filter (fun m => m != unit)) = sortDedup (ys.filter (fun m => m != unit)) := by
  apply sortDedup_congr
  intro id
  rw [mem_filter, mem_filter, bne_iff_ne]
  constructor
  · intro ⟨hid, hne⟩
    exact ⟨(h id hne).mp hid, hne⟩
  · intro ⟨hid, hne⟩
    exact ⟨(h id hne).mpr hid, hne⟩

/-! ## §2 Unions -/

/-- **Only the set of flat members matters**, and of that only what is left after absorption
    and without `never`. -/
theorem unionOfFlat_congr {flat flat' : List TypeId}
    (htop : (σ.wellKnown.any ∈ flat ∨ σ.wellKnown.error ∈ flat) ↔
      (σ.wellKnown.any ∈ flat' ∨ σ.wellKnown.error ∈ flat'))
    (hunknown : ¬ (σ.wellKnown.any ∈ flat ∨ σ.wellKnown.error ∈ flat) →
      (σ.wellKnown.unknown ∈ flat ↔ σ.wellKnown.unknown ∈ flat'))
    (hrest : ¬ (σ.wellKnown.any ∈ flat ∨ σ.wellKnown.error ∈ flat) →
      σ.wellKnown.unknown ∉ flat → ∀ id, id ≠ σ.wellKnown.never → (id ∈ flat ↔ id ∈ flat')) :
    σ.unionOfFlat structuralHash flat = σ.unionOfFlat structuralHash flat' := by
  have hany : ∀ list : List TypeId,
      (list.any (fun m => m == σ.wellKnown.any || m == σ.wellKnown.error) = true) ↔
        (σ.wellKnown.any ∈ list ∨ σ.wellKnown.error ∈ list) := by
    intro list
    rw [any_eq_true]
    constructor
    · intro ⟨id, hid, heq⟩
      rw [Bool.or_eq_true, beq_iff_eq, beq_iff_eq] at heq
      rcases heq with rfl | rfl
      · exact .inl hid
      · exact .inr hid
    · intro h
      rcases h with h | h
      · exact ⟨_, h, by simp⟩
      · exact ⟨_, h, by simp⟩
  unfold unionOfFlat
  by_cases habsorbed : σ.wellKnown.any ∈ flat ∨ σ.wellKnown.error ∈ flat
  · rw [if_pos ((hany flat).mpr habsorbed), if_pos ((hany flat').mpr (htop.mp habsorbed))]
  · have habsorbed' : ¬ (σ.wellKnown.any ∈ flat' ∨ σ.wellKnown.error ∈ flat') :=
      fun h => habsorbed (htop.mpr h)
    rw [if_neg (fun h => habsorbed ((hany flat).mp h)),
      if_neg (fun h => habsorbed' ((hany flat').mp h))]
    by_cases hknown : σ.wellKnown.unknown ∈ flat
    · rw [if_pos (contains_iff_mem.mpr hknown),
        if_pos (contains_iff_mem.mpr ((hunknown habsorbed).mp hknown))]
    · have hknown' : σ.wellKnown.unknown ∉ flat' :=
        fun h => hknown ((hunknown habsorbed).mpr h)
      rw [if_neg (fun h => hknown (contains_iff_mem.mp h)),
        if_neg (fun h => hknown' (contains_iff_mem.mp h)),
        sortDedup_filter_congr (hrest habsorbed hknown)]

/-- A union of types of the store is the canonical union of its flat members. -/
theorem union_eq (structuralHash : StructuralKey → Nat) (hσ : σ.Consed structuralHash regular)
    {members : List TypeId} (hrows : ∀ member ∈ members, ∃ r, σ.store.row member = some r) :
    σ.union structuralHash members
      = some (σ.unionOfFlat structuralHash (flattened σ.store.unionMembers members)) ∧
    UnionResult σ (flattened σ.store.unionMembers members)
      (σ.unionOfFlat structuralHash (flattened σ.store.unionMembers members)) := by
  have hexpands : ∀ member ∈ members, Expands σ.store σ.store.unionMembers member := by
    intro member hmember
    obtain ⟨r, hr⟩ := hrows member hmember
    exact expands_of_row hσ hr
  obtain ⟨flat, hflatten, hmem⟩ := flatten_spec [] hexpands le_rfl
  have hmem' : ∀ id, id ∈ flat ↔ id ∈ flattened σ.store.unionMembers members := by
    intro id
    rw [hmem]
    simp [flattened]
  have hflat : ∀ member ∈ flattened σ.store.unionMembers members,
      σ.store.FlatMember .union member := by
    intro member hmember
    exact flatMember_of_flattenMembers hσ.wellFormed .unions (fun _ hnone => hnone) hflatten
      member ((hmem' member).mpr hmember)
  refine ⟨?_, unionResult_unionOfFlat _ hσ hflat⟩
  have hsame : σ.unionOfFlat structuralHash flat
      = σ.unionOfFlat structuralHash (flattened σ.store.unionMembers members) :=
    unionOfFlat_congr (by rw [hmem', hmem']) (fun _ => hmem' _) (fun _ _ id _ => hmem' id)
  rw [← hsame]
  unfold union flattenMembers
  rw [hflatten]
  rfl

theorem wellKnown_injective (hknown : σ.KnowsIntrinsics) {kind kind' : IntrinsicKind}
    (h : σ.wellKnown.id kind = σ.wellKnown.id kind') : kind = kind' := by
  have hrow := hknown.row kind
  rw [h, hknown.row kind'] at hrow
  cases hrow
  rfl

theorem wellKnown_ne (hknown : σ.KnowsIntrinsics) {kind kind' : IntrinsicKind} (h : kind ≠ kind') :
    σ.wellKnown.id kind ≠ σ.wellKnown.id kind' :=
  fun heq => h (wellKnown_injective hknown heq)

/-- The id of an intrinsic has no members. -/
theorem expand_wellKnown (hknown : σ.KnowsIntrinsics) {t : SideTable} (ht : t.tag ≠ .intrinsic)
    {nested : TypeId → Option (List TypeId)}
    (hnested : ∀ id, σ.store.tag id ≠ some t.tag → nested id = none) (kind : IntrinsicKind) :
    expand nested (σ.wellKnown.id kind) = [σ.wellKnown.id kind] := by
  apply expand_of_none
  apply hnested
  rw [Store.tag_of_row (hknown.row kind)]
  intro heq
  exact ht (Option.some.inj heq).symm

theorem unionMembers_of_tag_ne {s : Store} {id : TypeId} (h : s.tag id ≠ some .union) :
    s.unionMembers id = none := if_neg h

theorem intersectionMembers_of_tag_ne {s : Store} {id : TypeId} (h : s.tag id ≠ some .intersection) :
    s.intersectionMembers id = none := if_neg h

/-- A top-like member makes the union `any`. -/
theorem unionOfFlat_of_top {flat : List TypeId}
    (h : σ.wellKnown.any ∈ flat ∨ σ.wellKnown.error ∈ flat) :
    σ.unionOfFlat structuralHash flat = (σ.wellKnown.any, σ) := by
  unfold unionOfFlat
  apply if_pos
  rw [any_eq_true]
  rcases h with h | h
  · exact ⟨_, h, by simp⟩
  · exact ⟨_, h, by simp⟩

/-- **Only the members other than `never` matter.** -/
theorem unionOfFlat_congr_of_ne (hknown : σ.KnowsIntrinsics) {flat flat' : List TypeId}
    (h : ∀ id, id ≠ σ.wellKnown.never → (id ∈ flat ↔ id ∈ flat')) :
    σ.unionOfFlat structuralHash flat = σ.unionOfFlat structuralHash flat' := by
  have hne : ∀ kind, kind ≠ .never → σ.wellKnown.id kind ≠ σ.wellKnown.never :=
    fun kind hkind => wellKnown_ne hknown hkind
  have hany := h _ (hne .any (by simp))
  have herror := h _ (hne .error (by simp))
  apply unionOfFlat_congr
  · exact or_congr hany herror
  · exact fun _ => h _ (hne .unknown (by simp))
  · exact fun _ _ => h

/-- The members of a union that absorbs nothing are the flat ones without `never`. -/
theorem mem_expand_unionOfFlat (structuralHash : StructuralKey → Nat)
    (hσ : σ.Consed structuralHash regular) (hknown : σ.KnowsIntrinsics)
    {flat : List TypeId} (hflat : ∀ member ∈ flat, σ.store.FlatMember .union member)
    (htop : ¬ (σ.wellKnown.any ∈ flat ∨ σ.wellKnown.error ∈ flat))
    (hunknown : σ.wellKnown.unknown ∉ flat) {id : TypeId} (hid : id ≠ σ.wellKnown.never) :
    id ∈ expand (σ.unionOfFlat structuralHash flat).2.store.unionMembers
      (σ.unionOfFlat structuralHash flat).1 ↔ id ∈ flat := by
  have hresult := unionResult_unionOfFlat structuralHash hσ hflat
  generalize σ.unionOfFlat structuralHash flat = result at hresult ⊢
  cases hresult with
  | any h => exact absurd h htop
  | unknown h => exact absurd h hunknown
  | never hall =>
    have hexpand := expand_wellKnown (t := .unions) hknown (by simp [SideTable.tag])
      (fun _ => unionMembers_of_tag_ne) .never
    simp only [WellKnown.id] at hexpand
    rw [hexpand, mem_singleton]
    exact ⟨fun heq => absurd heq hid, fun hmem => absurd (hall id hmem) hid⟩
  | single single hsingle hall =>
    obtain ⟨tag, htag, hne⟩ := hflat single hsingle
    have hnone : σ.store.unionMembers single = none := by
      apply unionMembers_of_tag_ne
      rw [htag]
      exact fun heq => hne (Option.some.inj heq)
    rw [expand_of_none hnone, mem_singleton]
    constructor
    · intro heq
      rw [heq]
      exact hsingle
    · intro hmem
      exact (hall id hmem).resolve_right hid
  | row members result hmembers hrow =>
    have hsome : result.2.store.unionMembers result.1 = some members :=
      (result.2.store.entry_eq_some_iff .unions result.1 members).mpr hrow
    rw [expand_of_some hsome, hmembers]
    exact ⟨fun h => h.1, fun h => ⟨h, hid⟩⟩

/-- The flat members of a union of types of the store. -/
theorem flatMember_of_mem_flattened (hσ : σ.Consed structuralHash regular) {members : List TypeId}
    (hrows : ∀ member ∈ members, ∃ r, σ.store.row member = some r) {id : TypeId}
    (hid : id ∈ flattened σ.store.unionMembers members) : σ.store.FlatMember .union id := by
  obtain ⟨member, hmember, hexpand⟩ := mem_flattened.mp hid
  obtain ⟨r, hr⟩ := hrows member hmember
  cases hnested : σ.store.unionMembers member with
  | none =>
    rw [expand_of_none hnested, mem_singleton] at hexpand
    rw [hexpand]
    exact flatMember_of_entry_none (t := .unions) hσ.wellFormed (Store.tag_of_row hr) hnested
  | some inner =>
    rw [expand_of_some hnested] at hexpand
    have hrow := (σ.store.entry_eq_some_iff .unions member inner).mp hnested
    exact (hσ.canonical member _ hrow).flat id hexpand

/-- A union denotes a row. -/
theorem row_unionOfFlat (structuralHash : StructuralKey → Nat)
    (hσ : σ.Consed structuralHash regular) (hknown : σ.KnowsIntrinsics)
    {flat : List TypeId} (hflat : ∀ member ∈ flat, σ.store.FlatMember .union member) :
    ∃ r, (σ.unionOfFlat structuralHash flat).2.store.row (σ.unionOfFlat structuralHash flat).1
      = some r := by
  have hresult := unionResult_unionOfFlat structuralHash hσ hflat
  generalize σ.unionOfFlat structuralHash flat = result at hresult ⊢
  cases hresult with
  | any h => exact ⟨_, hknown.row .any⟩
  | unknown h => exact ⟨_, hknown.row .unknown⟩
  | never h => exact ⟨_, hknown.row .never⟩
  | single single hsingle h =>
    obtain ⟨tag, htag, _⟩ := hflat single hsingle
    obtain ⟨r, hr, _⟩ := row_of_tag hσ htag
    exact ⟨r, hr⟩
  | row members result hmembers hrow => exact ⟨_, hrow⟩

/-- `unknown` absorbs what is not top-like. -/
theorem unionOfFlat_of_unknown {flat : List TypeId}
    (htop : ¬ (σ.wellKnown.any ∈ flat ∨ σ.wellKnown.error ∈ flat))
    (h : σ.wellKnown.unknown ∈ flat) :
    σ.unionOfFlat structuralHash flat = (σ.wellKnown.unknown, σ) := by
  unfold unionOfFlat
  rw [if_neg, if_pos (contains_iff_mem.mpr h)]
  intro htop'
  apply htop
  obtain ⟨id, hid, heq⟩ := any_eq_true.mp htop'
  rw [Bool.or_eq_true, beq_iff_eq, beq_iff_eq] at heq
  rcases heq with rfl | rfl
  · exact .inl hid
  · exact .inr hid

/-- Nothing but `never` is united. -/
theorem unionOfFlat_of_never (hknown : σ.KnowsIntrinsics) {flat : List TypeId}
    (h : ∀ id ∈ flat, id = σ.wellKnown.never) :
    σ.unionOfFlat structuralHash flat = (σ.wellKnown.never, σ) := by
  have hsame : σ.unionOfFlat structuralHash flat = σ.unionOfFlat structuralHash [] := by
    apply unionOfFlat_congr_of_ne hknown
    intro id hid
    constructor
    · intro hmem
      exact absurd (h id hmem) hid
    · intro hmem
      cases hmem
  rw [hsame]
  rfl

/-- **A union among the members can be replaced by its own members.** -/
theorem union_append_union (hσ : σ.Consed structuralHash regular) (hknown : σ.KnowsIntrinsics)
    {xs ys : List TypeId} (hxs : ∀ member ∈ xs, ∃ r, σ.store.row member = some r)
    (hys : ∀ member ∈ ys, ∃ r, σ.store.row member = some r) {made : TypeId}
    (h : σ.union structuralHash ys = some (made, σ)) :
    σ.union structuralHash (xs ++ [made]) = σ.union structuralHash (xs ++ ys) := by
  obtain ⟨hunion, _⟩ := union_eq structuralHash hσ hys
  rw [h, Option.some.injEq] at hunion
  have hflat : ∀ member ∈ flattened σ.store.unionMembers ys, σ.store.FlatMember .union member :=
    fun member hmember => flatMember_of_mem_flattened hσ hys hmember
  have hexpand : ∀ kind, expand σ.store.unionMembers (σ.wellKnown.id kind)
      = [σ.wellKnown.id kind] :=
    expand_wellKnown (t := .unions) hknown (by simp [SideTable.tag])
      (fun _ => unionMembers_of_tag_ne)
  obtain ⟨r, hmade⟩ := row_unionOfFlat structuralHash hσ hknown hflat
  rw [← hunion] at hmade
  have hone : ∀ member ∈ [made], ∃ r, σ.store.row member = some r := by
    intro member hmember
    rw [mem_singleton.mp hmember]
    exact ⟨r, hmade⟩
  rw [(union_eq _ hσ (forall_mem_append.mpr ⟨hxs, hys⟩)).1,
    (union_eq _ hσ (forall_mem_append.mpr ⟨hxs, hone⟩)).1, flattened_append, flattened_append,
    flattened_singleton]
  congr 1
  by_cases htop : σ.wellKnown.any ∈ flattened σ.store.unionMembers ys ∨
      σ.wellKnown.error ∈ flattened σ.store.unionMembers ys
  · -- both sides are absorbed
    rw [unionOfFlat_of_top htop, Prod.mk.injEq] at hunion
    have hany := hexpand .any
    simp only [WellKnown.id] at hany
    rw [unionOfFlat_of_top, unionOfFlat_of_top]
    · rcases htop with htop | htop
      · exact .inl (mem_append_right _ htop)
      · exact .inr (mem_append_right _ htop)
    · left
      rw [hunion.1, hany]
      simp
  · by_cases hunknown : σ.wellKnown.unknown ∈ flattened σ.store.unionMembers ys
    · -- both sides have `unknown`, and their top-like members are the ones of `xs`
      rw [unionOfFlat_of_unknown htop hunknown, Prod.mk.injEq] at hunion
      have hexpand' := hexpand .unknown
      simp only [WellKnown.id] at hexpand'
      have hne : ∀ kind, kind ≠ .unknown → σ.wellKnown.id kind ≠ σ.wellKnown.unknown :=
        fun kind hkind => wellKnown_ne hknown hkind
      have hany := hne .any (by simp)
      have herror := hne .error (by simp)
      simp only [WellKnown.id] at hany herror
      rw [hunion.1, hexpand']
      apply unionOfFlat_congr
      · rw [not_or] at htop
        simp [hany, herror, htop.1, htop.2]
      · simp [hunknown]
      · intro _ hno
        exact absurd (by simp) hno
    -- a plain union splices its members in
    · apply unionOfFlat_congr_of_ne hknown
      intro id hid
      have hmem := mem_expand_unionOfFlat structuralHash hσ hknown hflat htop
        hunknown hid
      rw [← hunion] at hmem
      rw [mem_append, mem_append, hmem]

/-- Rows are flattened to the same members later. -/
theorem flattened_extends (nested : Store → TypeId → Option (List TypeId))
    (hnested : ∀ id r, σ.store.row id = some r → nested τ.store id = nested σ.store id)
    {members : List TypeId} (hrows : ∀ member ∈ members, ∃ r, σ.store.row member = some r) :
    flattened (nested τ.store) members = flattened (nested σ.store) members := by
  apply flatMap_congr
  intro member hmember
  obtain ⟨r, hr⟩ := hrows member hmember
  unfold expand
  rw [hnested member r hr]

theorem rows_extends (hext : Extends σ τ) {members : List TypeId}
    (hrows : ∀ member ∈ members, ∃ r, σ.store.row member = some r) :
    ∀ member ∈ members, ∃ r, τ.store.row member = some r := by
  intro member hmember
  obtain ⟨r, hr⟩ := hrows member hmember
  exact ⟨r, hext.row hr⟩

/-- **Two unions that absorb nothing are one type exactly when they have the same members
    other than `never`.** -/
theorem union_eq_iff (hσ : σ.Consed structuralHash regular) (hknown : σ.KnowsIntrinsics)
    {xs ys : List TypeId} (hxs : ∀ member ∈ xs, ∃ r, σ.store.row member = some r)
    (hys : ∀ member ∈ ys, ∃ r, σ.store.row member = some r)
    (hplain : ∀ id, id ∈ flattened σ.store.unionMembers (xs ++ ys) →
      id ≠ σ.wellKnown.any ∧ id ≠ σ.wellKnown.error ∧ id ≠ σ.wellKnown.unknown) :
    ∃ x σ₁ y σ₂, σ.union structuralHash xs = some (x, σ₁) ∧
      σ₁.union structuralHash ys = some (y, σ₂) ∧
      (x = y ↔ ∀ id, id ≠ σ.wellKnown.never →
        (id ∈ flattened σ.store.unionMembers xs ↔ id ∈ flattened σ.store.unionMembers ys)) := by
  obtain ⟨hunionX, _⟩ := union_eq structuralHash hσ hxs
  have hx : ∀ member ∈ flattened σ.store.unionMembers xs, σ.store.FlatMember .union member :=
    fun member hmember => flatMember_of_mem_flattened hσ hxs hmember
  obtain ⟨⟨x, σ₁⟩, hmadeX⟩ :
      ∃ made, σ.unionOfFlat structuralHash (flattened σ.store.unionMembers xs) = made := ⟨_, rfl⟩
  rw [hmadeX] at hunionX
  obtain ⟨hext, hσ₁⟩ := extends_union hσ hunionX
  have hknown₁ := hknown.mono hext
  have hys₁ := rows_extends hext hys
  obtain ⟨hunionY, _⟩ := union_eq structuralHash hσ₁ hys₁
  have hsame : flattened σ₁.store.unionMembers ys = flattened σ.store.unionMembers ys :=
    flattened_extends Store.unionMembers
      (fun id r hr => hext.entry_eq hr .unions) hys
  obtain ⟨⟨y, σ₂⟩, hmadeY⟩ :
      ∃ made, σ₁.unionOfFlat structuralHash (flattened σ.store.unionMembers ys) = made := ⟨_, rfl⟩
  rw [hsame, hmadeY] at hunionY
  have hy : ∀ member ∈ flattened σ.store.unionMembers ys, σ₁.store.FlatMember .union member := by
    rw [← hsame]
    exact fun member hmember => flatMember_of_mem_flattened hσ₁ hys₁ hmember
  have hwk : σ₁.wellKnown = σ.wellKnown := hext.wellKnown
  -- neither side is absorbed
  have hplain' : ∀ list : List TypeId,
      (∀ id ∈ list, id ∈ flattened σ.store.unionMembers (xs ++ ys)) →
      ¬ (σ.wellKnown.any ∈ list ∨ σ.wellKnown.error ∈ list) ∧ σ.wellKnown.unknown ∉ list := by
    intro list hlist
    refine ⟨?_, fun h => (hplain _ (hlist _ h)).2.2 rfl⟩
    intro h
    rcases h with h | h
    · exact (hplain _ (hlist _ h)).1 rfl
    · exact (hplain _ (hlist _ h)).2.1 rfl
  have hplainX := hplain' (flattened σ.store.unionMembers xs) (by
    intro id hid
    rw [flattened_append]
    exact mem_append_left _ hid)
  have hplainY := hplain' (flattened σ.store.unionMembers ys) (by
    intro id hid
    rw [flattened_append]
    exact mem_append_right _ hid)
  refine ⟨x, σ₁, y, σ₂, hunionX, hunionY, ?_⟩
  constructor
  · -- both ids stand for one list of members
    intro heq id hid
    have hmemX := mem_expand_unionOfFlat structuralHash hσ hknown hx hplainX.1
      hplainX.2 hid
    have hmemY := mem_expand_unionOfFlat structuralHash hσ₁ hknown₁ hy
      (by rw [hwk]; exact hplainY.1) (by rw [hwk]; exact hplainY.2) (by rw [hwk]; exact hid)
    obtain ⟨r, hr⟩ := row_unionOfFlat structuralHash hσ hknown hx
    rw [hmadeX] at hmemX hr
    rw [hmadeY, ← heq] at hmemY
    have hentry := (extends_union hσ₁ hunionY).1.entry_eq hr .unions
    rw [← hmemX, ← hmemY]
    unfold expand Store.unionMembers
    dsimp only at hentry ⊢
    rw [hentry]
  · -- the second union is the first one again
    intro hmembers
    have hreplay := (interning_union xs σ hσ _ hunionX).replay σ₁ hσ₁ (.refl σ₁)
    have hagain := (union_eq structuralHash hσ₁ (rows_extends hext hxs)).1
    have hsameX : flattened σ₁.store.unionMembers xs = flattened σ.store.unionMembers xs :=
      flattened_extends Store.unionMembers
        (fun id r hr => hext.entry_eq hr .unions) hxs
    rw [hreplay, hsameX, unionOfFlat_congr_of_ne hknown₁ (by rw [hwk]; exact hmembers), hmadeY,
      Option.some.injEq] at hagain
    exact congrArg Prod.fst hagain

end Interner

end Typokat.Types
