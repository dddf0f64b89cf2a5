import Typokat.Types.IntersectionLaws

/-!
# Normal Forms of Set Types (`typokat-types/src/types/intern/operators.rs`)

A union or an intersection of flat members first becomes a list of members: the absorbing
member alone, or the members that are left in ascending order.  Only this list decides on the
id, and two lists give one id in a run exactly when they are equal.

## Main Results

- `Interner.union_eq_iff_form` : two unions are one type exactly when their forms are equal
- `Interner.intersection_eq_iff_form` : the same for intersections
-/

namespace Typokat.Types

variable {structuralHash : StructuralKey → Nat} {regular : Prop}

namespace Interner

variable {σ τ : Interner}

/-! ## §1 Forms -/

/-- The canonical members of a union; none of them stands for `never`. -/
def unionForm (σ : Interner) (flat : List TypeId) : List TypeId :=
  let wk := σ.wellKnown
  if flat.any (fun m => m == wk.any || m == wk.error) then [wk.any]
  else if flat.contains wk.unknown then [wk.unknown]
  else sortDedup (flat.filter (fun m => m != wk.never))

/-- The canonical members of an intersection; none of them stands for `unknown`. -/
def intersectionForm (σ : Interner) (flat : List TypeId) : List TypeId :=
  let wk := σ.wellKnown
  if flat.contains wk.error then [wk.any]
  else if flat.contains wk.never then [wk.never]
  else if flat.contains wk.any then [wk.any]
  else
    let canonical := sortDedup (flat.filter (fun m => m != wk.unknown))
    if hasDefinitelyDisjointMembers σ.store canonical then [wk.never] else canonical

/-- The id of a form. -/
def ofForm (σ : Interner) (unit : TypeId) (intern : List TypeId → TypeId × Interner) :
    List TypeId → TypeId × Interner
  | [] => (unit, σ)
  | [single] => (single, σ)
  | canonical => intern canonical

theorem unionOfFlat_eq_ofForm (flat : List TypeId) :
    σ.unionOfFlat structuralHash flat
      = σ.ofForm σ.wellKnown.never (σ.internUnion structuralHash) (σ.unionForm flat) := by
  unfold unionOfFlat unionForm
  dsimp only
  split
  · rfl
  · split
    · rfl
    · split <;> simp_all [ofForm]

theorem intersectionOfFlat_eq_ofForm (flat : List TypeId) :
    σ.intersectionOfFlat structuralHash flat
      = σ.ofForm σ.wellKnown.unknown (σ.internIntersection structuralHash)
          (σ.intersectionForm flat) := by
  unfold intersectionOfFlat intersectionForm
  dsimp only
  split
  · rfl
  · split
    · rfl
    · split
      · rfl
      · split
        · rfl
        · split <;> simp_all [ofForm]

/-- A form: its only member is a type of another kind and not the unit, or its members are
    those of a stored set type. -/
structure Form (s : Store) (tag : TypeTag) (unit : TypeId) (form : List TypeId) : Prop where
  single : ∀ id, form = [id] → id ≠ unit ∧ s.FlatMember tag id
  many : form ≠ [] → (∀ id, form ≠ [id]) → s.SetMembers tag form

theorem form_sortDedup {tag : TypeTag} {unit : TypeId} {flat : List TypeId}
    (hflat : ∀ member ∈ flat, σ.store.FlatMember tag member) :
    Form σ.store tag unit (sortDedup (flat.filter (fun m => m != unit))) where
  single id hid := by
    have hmem : id ∈ sortDedup (flat.filter (fun m => m != unit)) := by simp [hid]
    rw [mem_sortDedup, List.mem_filter, bne_iff_ne] at hmem
    exact ⟨hmem.2, hflat id hmem.1⟩
  many hnil hsingle := setMembers_sortDedup hflat hnil hsingle

theorem form_wellKnown (hknown : σ.KnowsIntrinsics) {tag : TypeTag} (htag : tag ≠ .intrinsic)
    (kind unit : IntrinsicKind) (hne : kind ≠ unit) :
    Form σ.store tag (σ.wellKnown.id unit) [σ.wellKnown.id kind] where
  single id hid := by
    have heq := List.singleton_inj.mp hid
    rw [← heq]
    exact ⟨wellKnown_ne hknown hne, _, Store.tag_of_row (hknown.row kind), Ne.symm htag⟩
  many _ hsingle := absurd rfl (hsingle _)

theorem form_unionForm (hknown : σ.KnowsIntrinsics) {flat : List TypeId}
    (hflat : ∀ member ∈ flat, σ.store.FlatMember .union member) :
    Form σ.store .union σ.wellKnown.never (σ.unionForm flat) := by
  unfold unionForm
  dsimp only
  split
  · exact form_wellKnown hknown (by simp) .any .never (by simp)
  · split
    · exact form_wellKnown hknown (by simp) .unknown .never (by simp)
    · exact form_sortDedup hflat

theorem form_intersectionForm (hknown : σ.KnowsIntrinsics) {flat : List TypeId}
    (hflat : ∀ member ∈ flat, σ.store.FlatMember .intersection member) :
    Form σ.store .intersection σ.wellKnown.unknown (σ.intersectionForm flat) := by
  unfold intersectionForm
  dsimp only
  split
  · exact form_wellKnown hknown (by simp) .any .unknown (by simp)
  · split
    · exact form_wellKnown hknown (by simp) .never .unknown (by simp)
    · split
      · exact form_wellKnown hknown (by simp) .any .unknown (by simp)
      · split
        · exact form_wellKnown hknown (by simp) .never .unknown (by simp)
        · exact form_sortDedup hflat

/-! ## §2 One form, one id -/

/-- The id of a form: the unit, the only member, or a set type over the members. -/
inductive Shows (s : Store) (tag : TypeTag) (unit : TypeId) : List TypeId → TypeId → Prop
  | unit : Shows s tag unit [] unit
  | single (id : TypeId) : Shows s tag unit [id] id
  | many {id : TypeId} {r : Row} :
      s.row id = some r → r.tag = tag → Shows s tag unit r.setMembers id

section Shows

variable {tag : TypeTag} {unit : TypeId}

theorem Shows.mono {form : List TypeId} {id : TypeId} (hext : Extends σ τ)
    (h : Shows σ.store tag unit form id) : Shows τ.store tag unit form id := by
  cases h with
  | unit => exact .unit
  | single => exact .single _
  | many hrow htag => exact .many (hext.row hrow) htag

theorem Form.mono (hσ : σ.Consed structuralHash regular) (hext : Extends σ τ) {form : List TypeId}
    (h : Form σ.store tag unit form) :
    Form τ.store tag unit form where
  single id hid := ⟨(h.single id hid).1, Store.FlatMember.mono hσ hext (h.single id hid).2⟩
  many hnil hsingle := by
    obtain ⟨hsorted, htwo, hflat⟩ := h.many hnil hsingle
    exact ⟨hsorted, htwo, fun member hmember => Store.FlatMember.mono hσ hext (hflat member hmember)⟩

/-- **One id shows one form.** -/
theorem Shows.unique {s : Store} {form form' : List TypeId} {id : TypeId}
    (hunit : s.FlatMember tag unit) (hform : Form s tag unit form) (hform' : Form s tag unit form')
    (h : Shows s tag unit form id) (h' : Shows s tag unit form' id) : form = form' := by
  have hne : ∀ {r : Row}, s.row id = some r → r.tag = tag → ¬ s.FlatMember tag id := by
    intro r hrow htag hflat
    obtain ⟨other, hother, hne⟩ := hflat
    rw [Store.tag_of_row hrow, Option.some.injEq] at hother
    exact hne (hother.symm.trans htag)
  cases h with
  | unit =>
    cases h' with
    | unit => rfl
    | single => exact absurd rfl (hform'.single _ rfl).1
    | many hrow htag => exact absurd hunit (hne hrow htag)
  | single =>
    cases h' with
    | unit => exact absurd rfl (hform.single _ rfl).1
    | single => rfl
    | many hrow htag => exact absurd (hform.single _ rfl).2 (hne hrow htag)
  | many hrow htag =>
    cases h' with
    | unit => exact absurd hunit (hne hrow htag)
    | single => exact absurd (hform'.single _ rfl).2 (hne hrow htag)
    | many hrow' =>
      rw [hrow, Option.some.injEq] at hrow'
      rw [hrow']

/-- The id of a form shows it. -/
theorem shows_ofForm {intern : List TypeId → TypeId × Interner}
    (hintern : ∀ form, σ.store.SetMembers tag form → ∃ r,
      (intern form).2.store.row (intern form).1 = some r ∧ r.tag = tag ∧ r.setMembers = form)
    {form : List TypeId} (h : Form σ.store tag unit form) :
    Shows (σ.ofForm unit intern form).2.store tag unit form (σ.ofForm unit intern form).1 := by
  rcases form with _ | ⟨first, _ | ⟨second, rest⟩⟩
  · exact .unit
  · exact .single first
  · obtain ⟨r, hrow, htag, hmembers⟩ := hintern _ (h.many (by simp) (by simp))
    have hshows : Shows _ tag unit r.setMembers _ := .many hrow htag
    rw [hmembers] at hshows
    exact hshows

end Shows

theorem flatMember_wellKnown (hknown : σ.KnowsIntrinsics) (tag : TypeTag) (htag : tag ≠ .intrinsic)
    (kind : IntrinsicKind) :
    σ.store.FlatMember tag (σ.wellKnown.id kind) :=
  ⟨_, Store.tag_of_row (hknown.row kind), Ne.symm htag⟩

/-- **An operation that makes the id of a form gives two lists one id exactly when their forms
    are equal.** -/
theorem eq_iff_form (op : Interner → List TypeId → Option (TypeId × Interner))
    (intern : Interner → List TypeId → TypeId × Interner) (form : List TypeId → List TypeId)
    {tag : TypeTag} (unit : TypeId) (hσ : σ.Consed structuralHash regular)
    (hop : ∀ members, Interning structuralHash regular (fun σ => op σ members))
    (hunit : σ.store.FlatMember tag unit)
    (hform : ∀ members, (∀ member ∈ members, ∃ r, σ.store.row member = some r) →
      Form σ.store tag unit (form members))
    (hmakes : ∀ ρ, Extends σ ρ → ρ.Consed structuralHash regular → ∀ members,
      (∀ member ∈ members, ∃ r, σ.store.row member = some r) →
      op ρ members = some (ρ.ofForm unit (intern ρ) (form members)))
    (hintern : ∀ ρ, Extends σ ρ → ρ.Consed structuralHash regular → ∀ form,
      ρ.store.SetMembers tag form → ∃ r,
        (intern ρ form).2.store.row (intern ρ form).1 = some r ∧ r.tag = tag ∧ r.setMembers = form)
    {xs ys : List TypeId} (hxs : ∀ member ∈ xs, ∃ r, σ.store.row member = some r)
    (hys : ∀ member ∈ ys, ∃ r, σ.store.row member = some r) {x y : TypeId} {σ₁ σ₂ : Interner}
    (hx : op σ xs = some (x, σ₁)) (hy : op σ₁ ys = some (y, σ₂)) :
    x = y ↔ form xs = form ys := by
  have hmadeX := hop xs σ hσ _ hx
  have hσ₁ := hmadeX.grows.consed hσ
  have hext := hmadeX.grows.grown
  have hmadeY := hop ys σ₁ hσ₁ _ hy
  have hext' := hmadeY.grows.grown
  constructor
  · intro heq
    have hX := hmakes σ (.refl σ) hσ xs hxs
    have hY := hmakes σ₁ hext hσ₁ ys hys
    have hshowsX := shows_ofForm (hintern σ (.refl σ) hσ) (hform xs hxs)
    have hshowsY := shows_ofForm (hintern σ₁ hext hσ₁) ((hform ys hys).mono hσ hext)
    rw [hx, Option.some.injEq] at hX
    rw [hy, Option.some.injEq] at hY
    rw [← hX] at hshowsX
    rw [← hY, ← heq] at hshowsY
    have hgrown := hext.trans hext'
    apply (hshowsX.mono hext').unique _ _ _ hshowsY
    · exact Store.FlatMember.mono hσ hgrown hunit
    · exact (hform xs hxs).mono hσ hgrown
    · exact (hform ys hys).mono hσ hgrown
  · intro heq
    -- what was made of the one form is found for the other
    have hagain := hmakes σ₁ hext hσ₁ xs hxs
    rw [heq, ← hmakes σ₁ hext hσ₁ ys hys, hy, hmadeX.replay σ₁ hσ₁ (.refl σ₁),
      Option.some.injEq] at hagain
    exact congrArg Prod.fst hagain

/-- A form does not change when the interner grows. -/
theorem unionForm_extends (hext : Extends σ τ) {members : List TypeId}
    (hrows : ∀ member ∈ members, ∃ r, σ.store.row member = some r) :
    τ.unionForm (flattened τ.store.unionMembers members)
      = σ.unionForm (flattened σ.store.unionMembers members) := by
  rw [flattened_extends Store.unionMembers (fun id r hr => hext.entry_eq hr .unions) hrows]
  unfold unionForm
  rw [hext.wellKnown]

theorem intersectionForm_extends (hσ : σ.Consed structuralHash regular) (hext : Extends σ τ)
    {members : List TypeId} (hrows : ∀ member ∈ members, ∃ r, σ.store.row member = some r) :
    τ.intersectionForm (flattened τ.store.intersectionMembers members)
      = σ.intersectionForm (flattened σ.store.intersectionMembers members) := by
  rw [flattened_extends Store.intersectionMembers
    (fun id r hr => hext.entry_eq hr .intersections) hrows]
  -- the flat members have rows, so they are disjoint before when they are later
  have hdisjoint : hasDefinitelyDisjointMembers τ.store
      (sortDedup ((flattened σ.store.intersectionMembers members).filter
        (fun m => m != σ.wellKnown.unknown)))
      = hasDefinitelyDisjointMembers σ.store
        (sortDedup ((flattened σ.store.intersectionMembers members).filter
          (fun m => m != σ.wellKnown.unknown))) := by
    apply hasDefinitelyDisjointMembers_extends hσ hext
    intro member hmember
    obtain ⟨tag, htag, _⟩ := flatMember_of_mem_flattened_intersection hσ hrows
      (mem_canonicalIntersection.mp hmember).1
    obtain ⟨r, hr, _⟩ := row_of_tag hσ htag
    exact ⟨r, hr⟩
  unfold intersectionForm
  dsimp only
  rw [hext.wellKnown, hdisjoint]

section Iff

variable (hσ : σ.Consed structuralHash regular) (hknown : σ.KnowsIntrinsics) {xs ys : List TypeId}
  (hxs : ∀ member ∈ xs, ∃ r, σ.store.row member = some r)
  (hys : ∀ member ∈ ys, ∃ r, σ.store.row member = some r) {x y : TypeId} {σ₁ σ₂ : Interner}
include hσ hknown hxs hys

/-- **Two unions are one type exactly when their forms are equal.** -/
theorem union_eq_iff_form (hx : σ.union structuralHash xs = some (x, σ₁))
    (hy : σ₁.union structuralHash ys = some (y, σ₂)) :
    x = y ↔ σ.unionForm (flattened σ.store.unionMembers xs)
      = σ.unionForm (flattened σ.store.unionMembers ys) := by
  apply eq_iff_form (Interner.union structuralHash) (fun ρ => ρ.internUnion structuralHash)
    (fun members => σ.unionForm (flattened σ.store.unionMembers members))
    σ.wellKnown.never hσ interning_union
    (flatMember_wellKnown hknown .union (by simp) .never) _ _ _ hxs hys hx hy
  · intro members hrows
    exact form_unionForm hknown
      (fun member hmember => flatMember_of_mem_flattened hσ hrows hmember)
  · intro ρ hext hρ members hrows
    have hunion := (union_eq structuralHash hρ (rows_extends hext hrows)).1
    rw [hunion, unionOfFlat_eq_ofForm, unionForm_extends hext hrows, hext.wellKnown]
  · intro ρ _ hρ form hform
    exact ⟨_, row_internUnion hρ hform, rfl, rfl⟩

/-- **Two intersections are one type exactly when their forms are equal.** -/
theorem intersection_eq_iff_form (hx : σ.intersection structuralHash xs = some (x, σ₁))
    (hy : σ₁.intersection structuralHash ys = some (y, σ₂)) :
    x = y ↔ σ.intersectionForm (flattened σ.store.intersectionMembers xs)
      = σ.intersectionForm (flattened σ.store.intersectionMembers ys) := by
  apply eq_iff_form (Interner.intersection structuralHash)
    (fun ρ => ρ.internIntersection structuralHash)
    (fun members => σ.intersectionForm (flattened σ.store.intersectionMembers members))
    σ.wellKnown.unknown hσ interning_intersection
    (flatMember_wellKnown hknown .intersection (by simp) .unknown) _ _ _ hxs hys hx hy
  · intro members hrows
    exact form_intersectionForm hknown
      (fun member hmember => flatMember_of_mem_flattened_intersection hσ hrows hmember)
  · intro ρ hext hρ members hrows
    have hintersection := intersection_eq structuralHash hρ (hknown.mono hext)
      (rows_extends hext hrows)
    rw [hintersection, intersectionOfFlat_eq_ofForm, intersectionForm_extends hσ hext hrows,
      hext.wellKnown]
  · intro ρ _ hρ form hform
    exact ⟨_, row_internIntersection hρ hform, rfl, rfl⟩

end Iff

end Interner

end Typokat.Types
