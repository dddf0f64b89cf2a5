import Typokat.Types.Consing

/-!
# Operations as Core Steps

Every operation of the interner is a sequence of core steps; a substitution is one by
`Types.Extension`.

## Main Results

- `Interner.filled_of_validateFills` : what a validated batch does
- `steps_*` : what each operation of the interner does, as core steps
-/

namespace Typokat.Types

open ReservedTypeFill Option List Store

variable {structuralHash : StructuralKey → Nat} {regular : Prop}

/-- The row a fill publishes. -/
def ReservedTypeFill.body : ReservedTypeFill → Row
  | .object _ body => .object body.canonical
  | .conditional _ body => .conditional body
  | .mapped _ body => .mapped body

theorem ReservedTypeFill.canonical_body (fill : ReservedTypeFill) (s : Store) :
    fill.body.Canonical s := by
  cases fill
  case object id body => exact body.canonical_canonical
  all_goals trivial

theorem ReservedTypeFill.reservedKind_body (fill : ReservedTypeFill) :
    fill.body.reservedKind = some fill.kind := by
  cases fill <;> rfl

namespace Interner

/-- Some sequence of core steps. -/
abbrev Steps (structuralHash : StructuralKey → Nat) (regular : Prop) : Interner → Interner → Prop :=
  Relation.ReflTransGen (CoreStep structuralHash regular)

theorem Consed.steps {σ σ' : Interner} (hσ : σ.Consed structuralHash regular)
    (h : Steps structuralHash regular σ σ') : σ'.Consed structuralHash regular := by
  induction h with
  | refl => exact hσ
  | tail _ hstep ih => exact ih.step hstep

/-! ## §1 Constructors and caches -/

section Basic

variable {σ σ' : Interner}

theorem InternSpec.steps {key : StructuralKey} {result : TypeId × Interner}
    (h : InternSpec structuralHash regular σ key result) :
    Steps structuralHash regular σ result.2 := by
  rcases h with ⟨heq, _⟩ | ⟨r, _, _, hr⟩
  · rw [heq]
  · exact .single (.interned hr)

/-- Only the derived caches differ. -/
def SameCore (σ σ' : Interner) : Prop :=
  σ' = { σ with
    freeParamSummaries := σ'.freeParamSummaries
    applicationKeyModes := σ'.applicationKeyModes
    cleanApplicationResults := σ'.cleanApplicationResults }

theorem SameCore.refl (σ : Interner) : SameCore σ σ := rfl

theorem SameCore.trans {σ₁ σ₂ σ₃ : Interner} (h₁ : SameCore σ₁ σ₂) (h₂ : SameCore σ₂ σ₃) :
    SameCore σ₁ σ₃ := by
  unfold SameCore at *
  rw [h₂, h₁]

theorem SameCore.store_eq (h : SameCore σ σ') : σ'.store = σ.store := by rw [h]

theorem SameCore.reservedType_eq (h : SameCore σ σ') : σ'.reservedType = σ.reservedType := by
  rw [h]
  rfl

theorem SameCore.bucket_eq (h : SameCore σ σ') : σ'.bucket = σ.bucket := by
  rw [h]
  rfl

theorem SameCore.step (hσ : σ.Consed structuralHash regular) (h : SameCore σ σ') :
    CoreStep structuralHash regular σ σ' := by
  have hstore := h.store_eq
  refine .side ?_ ?_ ?_ ?_ ?_ (fun hash => by rw [h.bucket_eq]) (by rw [h]) (by rw [h])
    (by rw [h]) (by rw [h]; rfl)
    <;> rw [hstore]
  · exact fun _ => rfl
  · exact fun _ _ hrecipe => hrecipe
  · exact fun _ _ hrecipe => .inl hrecipe
  · exact hσ.wellFormed

theorem sameCore_freeParamSummary (σ : Interner) (ty : TypeId) :
    SameCore σ (σ.freeParamSummary ty).2 := rfl

theorem sameCore_applicationKeyMode (σ : Interner) (ty : TypeId) :
    SameCore σ (σ.applicationKeyMode ty).2 := rfl

theorem sameCore_cleanApplicationResult (σ : Interner) (key : CleanApplicationKey) :
    SameCore σ (σ.cleanApplicationResult key).2 := rfl

theorem sameCore_publishCleanApplicationResult (σ : Interner) (key : CleanApplicationKey)
    (result : TypeId) : SameCore σ (σ.publishCleanApplicationResult key result) := rfl

section Computing

variable {root : TypeId} {result : ApplicationSummary × Interner}
  (h : σ.computeApplicationSummaries root = some result)
include h

theorem sameCore_computeApplicationSummaries : SameCore σ result.2 := by
  unfold computeApplicationSummaries at h
  dsimp only at h
  split at h
  · cases h
    rfl
  · simp only [bind_eq_bind, bind_eq_some_iff, some.injEq] at h
    obtain ⟨state, _, values, _, rfl⟩ := h
    rfl

/-- Computing summaries leaves the clean results alone. -/
theorem cleanResults_computeApplicationSummaries :
    result.2.cleanApplicationResults = σ.cleanApplicationResults := by
  unfold computeApplicationSummaries at h
  dsimp only at h
  split at h
  · cases h
    rfl
  · simp only [bind_eq_bind, bind_eq_some_iff, some.injEq] at h
    obtain ⟨state, _, values, _, rfl⟩ := h
    rfl

end Computing

variable {result : List TypeParamId × Interner}

theorem sameCore_derivedFreeParams {ty : TypeId} (h : σ.derivedFreeParams ty = some result) :
    SameCore σ result.2 := by
  obtain ⟨summary, hsummary, rfl⟩ := map_eq_some_iff.mp h
  exact sameCore_computeApplicationSummaries hsummary

variable {node : DeclaredRecipeNode}

theorem sameCore_deriveDeclaredRecipeFreeParams
    (h : σ.deriveDeclaredRecipeFreeParams node = some result) : SameCore σ result.2 := by
  cases node with
  | type ty =>
    simp only [deriveDeclaredRecipeFreeParams, bind_eq_bind, bind_eq_some_iff, some.injEq] at h
    obtain ⟨derived, hderived, rfl⟩ := h
    exact (sameCore_derivedFreeParams hderived :)
  | array child =>
    cases h
    rfl
  | readonly child =>
    cases h
    rfl
  | tuple elements rest =>
    simp only [deriveDeclaredRecipeFreeParams] at h
    split at h
    · cases h
      rfl
    · cases h
  | application template parameters arguments =>
    simp only [deriveDeclaredRecipeFreeParams] at h
    split at h
    · simp only [bind_eq_bind, bind_eq_some_iff, some.injEq] at h
      obtain ⟨derived, hderived, rfl⟩ := h
      exact (sameCore_derivedFreeParams hderived :)
    · cases h

/-! ### Set types -/

/-- A row whose side table is not read has another tag. -/
theorem flatMember_of_entry_none {s : Store} (hs : s.WellFormed) {t : SideTable} {id : TypeId}
    {tag : TypeTag} (htag : s.tag id = some tag) (h : s.entry t id = none) :
    s.FlatMember t.tag id := by
  refine ⟨tag, htag, ?_⟩
  rintro rfl
  have hlt : id < s.len := by
    rw [← tag_isSome_iff, htag]
    rfl
  obtain ⟨r, hr⟩ := hs.row_isSome hlt
  rw [row_of_entry_tag htag, h] at hr
  cases hr

/-- What the flattening loop returns are rows that are not expanded. -/
theorem flatten_flat {s : Store} (hs : s.WellFormed) {t : SideTable}
    {nested : TypeId → Option (List TypeId)} (hnested : ∀ id, nested id = none → s.entry t id = none)
    {fuel : Nat} {members flat result : List TypeId}
    (h : flatten s nested fuel members flat = some result)
    (hflat : ∀ member ∈ flat, s.FlatMember t.tag member) :
    ∀ member ∈ result, s.FlatMember t.tag member := by
  induction fuel generalizing members flat with
  | zero =>
    unfold flatten at h
    split at h
    · cases h
      exact hflat
    · cases h
  | succ fuel ih =>
    unfold flatten at h
    split at h
    · cases h
      exact hflat
    · rename_i member _
      cases htag : s.tag member with
      | none =>
        rw [htag] at h
        cases h
      | some tag =>
        rw [htag] at h
        dsimp only at h
        split at h
        · exact ih h hflat
        · rename_i hnone
          refine ih h (fun other hother => ?_)
          rcases mem_append.mp hother with hother | hother
          · exact hflat other hother
          · rw [mem_singleton.mp hother]
            exact flatMember_of_entry_none hs htag (hnested member hnone)

theorem mem_of_mem_sortDedup_filter {flat : List TypeId} {p : TypeId → Bool} {member : TypeId}
    (h : member ∈ sortDedup (flat.filter p)) : member ∈ flat := by
  rw [sortDedup, FxHashSet.mem_sorted, List.mem_toFinset] at h
  exact (List.mem_filter.mp h).1

theorem flatMember_of_flattenMembers (hs : σ.store.WellFormed) (t : SideTable)
    {nested : Store → TypeId → Option (List TypeId)}
    (hnested : ∀ id, nested σ.store id = none → σ.store.entry t id = none)
    {members flat : List TypeId} (h : σ.flattenMembers nested members = some flat) :
    ∀ member ∈ flat, σ.store.FlatMember t.tag member :=
  flatten_flat hs hnested h (by simp)

theorem pairwise_sortDedup (ids : List Nat) : (sortDedup ids).Pairwise (· < ·) :=
  ((FxHashSet.pairwise_sorted _).and (FxHashSet.nodup_sorted _)).imp
    (fun h => lt_of_le_of_ne h.1 h.2)

/-- What is left of flat members after dropping, sorting and deduplicating is a stored set
    type, unless it collapses. -/
theorem setMembers_sortDedup {tag : TypeTag} {flat : List TypeId} {p : TypeId → Bool}
    (hflat : ∀ member ∈ flat, σ.store.FlatMember tag member)
    (hnil : sortDedup (flat.filter p) ≠ [])
    (hsingle : ∀ single, sortDedup (flat.filter p) ≠ [single]) :
    σ.store.SetMembers tag (sortDedup (flat.filter p)) where
  sorted := pairwise_sortDedup _
  two_le := by
    rcases hlist : sortDedup (flat.filter p) with _ | ⟨first, _ | ⟨second, rest⟩⟩
    · exact absurd hlist hnil
    · exact absurd hlist (hsingle first)
    · simp
  flat := fun member hmem => hflat member (mem_of_mem_sortDedup_filter hmem)

/-- A union returns an existing id, or goes through its constructor with flat members. -/
theorem unionOfFlat_cases {flat : List TypeId}
    (hflat : ∀ member ∈ flat, σ.store.FlatMember .union member) :
    (σ.unionOfFlat structuralHash flat).2 = σ ∨
      ∃ canonical, σ.store.SetMembers .union canonical ∧
        σ.unionOfFlat structuralHash flat = σ.internUnion structuralHash canonical := by
  unfold unionOfFlat
  dsimp only
  split
  · exact .inl rfl
  · split
    · exact .inl rfl
    · split
      · exact .inl rfl
      · exact .inl rfl
      · rename_i hnil hsingle
        exact .inr ⟨_, setMembers_sortDedup hflat hnil hsingle, rfl⟩

theorem steps_union (hσ : σ.Consed structuralHash regular) {members : List TypeId}
    {result : TypeId × Interner} (h : σ.union structuralHash members = some result) :
    Steps structuralHash regular σ result.2 := by
  obtain ⟨flat, hflatten, rfl⟩ := map_eq_some_iff.mp h
  have hflat := flatMember_of_flattenMembers hσ.wellFormed .unions (fun _ hnone => hnone) hflatten
  rcases unionOfFlat_cases hflat with heq | ⟨canonical, hcan, heq⟩
  · rw [heq]
  · rw [heq]
    exact (internSpec_internUnion hσ hcan).steps

theorem pairwise_deriveDeclaredRecipeFreeParams
    (h : σ.deriveDeclaredRecipeFreeParams node = some result) : result.1.Pairwise (· < ·) := by
  cases node with
  | type ty =>
    simp only [deriveDeclaredRecipeFreeParams, bind_eq_bind, bind_eq_some_iff, some.injEq] at h
    obtain ⟨derived, _, rfl⟩ := h
    exact pairwise_sortDedup _
  | array child =>
    cases h
    exact pairwise_sortDedup _
  | readonly child =>
    cases h
    exact pairwise_sortDedup _
  | tuple elements rest =>
    simp only [deriveDeclaredRecipeFreeParams] at h
    split at h
    · cases h
      exact pairwise_sortDedup _
    · cases h
  | application template parameters arguments =>
    simp only [deriveDeclaredRecipeFreeParams] at h
    split at h
    · simp only [bind_eq_bind, bind_eq_some_iff, some.injEq] at h
      obtain ⟨derived, _, rfl⟩ := h
      exact pairwise_sortDedup _
    · cases h

/-- A new recipe touches no row. -/
theorem pushDeclaredRecipe_step (hσ : σ.Consed structuralHash regular) {recipe : DeclaredTypeRecipe}
    (hrecipe : recipe.freeParams.Pairwise (· < ·))
    {index : FxHashMap DeclaredTypeRecipe DeclaredRecipeId} :
    CoreStep structuralHash regular σ { σ with
      store := (σ.store.pushDeclaredRecipe recipe).2
      declaredRecipeLocal := index } := by
  refine .side (fun _ => rfl) ?_ ?_ rfl ?_ (fun _ => rfl) rfl rfl rfl rfl
  · intro id found hfound
    have hlt : id < σ.store.declaredRecipes.len := by
      rw [← LayeredVec.get_isSome_iff]
      exact isSome_iff_exists.mpr ⟨found, hfound⟩
    exact (LayeredVec.get_pushLocal_of_lt _ _ hlt).trans hfound
  · intro id found hfound
    by_cases hid : id = σ.store.declaredRecipes.len
    · subst hid
      have hnew := (LayeredVec.get_pushLocal_self _ _).symm.trans hfound
      rw [some.injEq] at hnew
      right
      rw [← hnew]
      exact hrecipe
    · left
      exact (LayeredVec.get_pushLocal_of_ne _ _ hid).symm.trans hfound
  · exact
      { hσ.wellFormed with
        plain_recipes := LayeredVec.plain_pushLocal hσ.wellFormed.plain_recipes _ }

theorem steps_internDeclaredRecipe (hσ : σ.Consed structuralHash regular)
    {result : DeclaredRecipeId × Interner}
    (h : σ.internDeclaredRecipe node = some result) :
    Steps structuralHash regular σ result.2 := by
  simp only [internDeclaredRecipe, bind_eq_bind, bind_eq_some_iff] at h
  obtain ⟨derived, hderived, h⟩ := h
  have hcore := sameCore_deriveDeclaredRecipeFreeParams hderived
  refine .trans (.single (hcore.step hσ)) ?_
  have hσ' := hσ.step (hcore.step hσ)
  split at h
  · cases h
    exact .refl
  · cases h
    exact .single (pushDeclaredRecipe_step hσ' (pairwise_deriveDeclaredRecipeFreeParams hderived))

/-! ## §2 Reservations -/

theorem steps_reserveObject (hσ : σ.Consed structuralHash regular) :
    Steps structuralHash regular σ σ.reserveObject.2 :=
  .single (.reserved (r := .object {})
    (appended_pushEntry hσ.wellFormed) rfl rfl rfl)

theorem steps_reserveConditional (hσ : σ.Consed structuralHash regular) :
    Steps structuralHash regular σ σ.reserveConditional.2 :=
  .single (.reserved (r := .conditional (σ.errorConditional false))
    (appended_pushEntry hσ.wellFormed) trivial rfl rfl)

theorem steps_reserveMapped (hσ : σ.Consed structuralHash regular) :
    Steps structuralHash regular σ σ.reserveMapped.2 :=
  .single (.reserved (r := .mapped σ.errorMapped)
    (appended_pushEntry hσ.wellFormed) trivial rfl rfl)

end Basic

/-! ### Filling a batch -/

section Fill

variable {σ σ' : Interner}

/-- The derived caches are the same. -/
structure SameCaches (σ τ : Interner) : Prop where
  freeParams : τ.freeParamSummaries = σ.freeParamSummaries
  modes : τ.applicationKeyModes = σ.applicationKeyModes
  clean : τ.cleanApplicationResults = σ.cleanApplicationResults

theorem SameCaches.refl (σ : Interner) : SameCaches σ σ := ⟨rfl, rfl, rfl⟩

theorem SameCaches.trans {σ₁ σ₂ σ₃ : Interner} (h₁ : SameCaches σ₁ σ₂) (h₂ : SameCaches σ₂ σ₃) :
    SameCaches σ₁ σ₃ :=
  ⟨h₂.freeParams.trans h₁.freeParams, h₂.modes.trans h₁.modes, h₂.clean.trans h₁.clean⟩

/-- What no fill touches. -/
structure SameFrame (σ σ' : Interner) : Prop where
  len : σ'.store.len = σ.store.len
  recipes : σ'.store.declaredRecipes = σ.store.declaredRecipes
  names : σ'.store.typeParamNames = σ.store.typeParamNames
  constraints : σ'.store.typeParamConstraints = σ.store.typeParamConstraints
  recipeLocal : σ'.declaredRecipeLocal = σ.declaredRecipeLocal
  recipeBase : σ'.declaredRecipeBase = σ.declaredRecipeBase
  wellKnown : σ'.wellKnown = σ.wellKnown
  caches : SameCaches σ σ'

theorem SameFrame.refl (σ : Interner) : SameFrame σ σ := ⟨rfl, rfl, rfl, rfl, rfl, rfl, rfl, .refl σ⟩

theorem SameFrame.trans {σ₁ σ₂ σ₃ : Interner} (h₁ : SameFrame σ₁ σ₂) (h₂ : SameFrame σ₂ σ₃) :
    SameFrame σ₁ σ₃ :=
  ⟨h₂.len.trans h₁.len, h₂.recipes.trans h₁.recipes, h₂.names.trans h₁.names,
    h₂.constraints.trans h₁.constraints, h₂.recipeLocal.trans h₁.recipeLocal,
    h₂.recipeBase.trans h₁.recipeBase, h₂.wellKnown.trans h₁.wellKnown, h₁.caches.trans h₂.caches⟩

/-- What a batch of fills does: exactly the targets change. -/
structure Filled (structuralHash : StructuralKey → Nat) (regular : Prop) (σ σ' : Interner)
    (fills : List ReservedTypeFill) : Prop where
  row_new : ∀ fill ∈ fills, σ'.store.row fill.target = some fill.body
  row_old : ∀ id, id ∉ fills.map ReservedTypeFill.target → σ'.store.row id = σ.store.row id
  reserved_new : ∀ fill ∈ fills, σ'.reservedType fill.target = some ⟨fill.kind, .frozen⟩
  reserved_old : ∀ id, id ∉ fills.map ReservedTypeFill.target →
    σ'.reservedType id = σ.reservedType id
  dedup_eq : σ'.dedup = σ.dedup
  dedupBase_eq : σ'.dedupBase = σ.dedupBase
  frame : SameFrame σ σ'
  steps : Steps structuralHash regular σ σ'

/-- A fill is due: its target is a pending local reservation of its kind. -/
def Due (σ : Interner) (fill : ReservedTypeFill) : Prop :=
  σ.reservedTypes.lookup fill.target = some ⟨fill.kind, .pending⟩

variable {fill : ReservedTypeFill}

theorem write_of_suffix {s : Store} (hs : s.WellFormed) {r : Row}
    (hrow : s.row fill.target = some r) (hkind : r.reservedKind = some fill.kind)
    (hid : s.baseLen ≤ fill.target) :
    ∃ s', fill.write s = some s' ∧ Store.Replaced s s' fill.target fill.body := by
  have htag := tag_of_row hrow
  cases fill with
  | object id body =>
    cases r <;> simp only [Row.reservedKind, reduceCtorEq, some.injEq,
      kind] at hkind
    exact setEntry_of_suffix hs (t := .objects) body.canonical htag hid
  | conditional id body =>
    cases r <;> simp only [Row.reservedKind, reduceCtorEq, some.injEq,
      kind] at hkind
    exact setEntry_of_suffix hs (t := .conditionals) body htag hid
  | mapped id body =>
    cases r <;> simp only [Row.reservedKind, reduceCtorEq, some.injEq,
      kind] at hkind
    exact setEntry_of_suffix hs (t := .mapped) body htag hid

/-- One due fill is written. -/
theorem applyFill_of_due (hσ : σ.Consed structuralHash regular) (hdue : σ.Due fill) :
    ∃ σ', σ.applyFill fill = some σ' ∧
      Filled structuralHash regular σ σ' [fill] ∧
      σ'.store.semanticGraphIdentity = σ.store.semanticGraphIdentity ∧
      ∀ other : ReservedTypeFill, other.target ≠ fill.target → σ.Due other → σ'.Due other := by
  obtain ⟨r, hrow, hkind⟩ := hσ.reserved_row _ _ (hσ.reservedType_of_local hdue)
  obtain ⟨s', hwrite, hrep⟩ := write_of_suffix hσ.wellFormed hrow hkind
    (hσ.reserved_local _ (Finmap.mem_of_lookup_eq_some hdue))
  let filled : Interner := { σ with
    store := s'
    reservedTypes := σ.reservedTypes.insert fill.target ⟨fill.kind, .frozen⟩ }
  refine ⟨filled, ?_, ?_, hrep.identity_eq, ?_⟩
  · rw [applyFill, hwrite]
    simp only [bind_eq_bind, bind_some, show σ.reservedTypes.lookup fill.target = _ from hdue]
    rfl
  · exact
      { row_new := by
          intro other hmem
          rw [mem_singleton.mp hmem]
          exact hrep.row_new
        row_old := by
          intro id hid
          exact hrep.row_old id (by simpa using hid)
        reserved_new := by
          intro other hmem
          rw [mem_singleton.mp hmem]
          simp [filled, reservedType, hσ.reservedBase_of_local hdue]
        reserved_old := by
          intro id hid
          have hne : id ≠ fill.target := by simpa using hid
          simp [filled, reservedType, Finmap.lookup_insert_of_ne _ hne]
        dedup_eq := rfl
        dedupBase_eq := rfl
        frame := ⟨hrep.len_eq, hrep.recipes_eq, hrep.names_eq, hrep.constraints_eq, rfl, rfl, rfl,
          ⟨rfl, rfl, rfl⟩⟩
        steps := .single (.filled hdue (fill.canonical_body _) fill.reservedKind_body hrep rfl) }
  · intro other hne hother
    show (σ.reservedTypes.insert _ _).lookup other.target = _
    rw [Finmap.lookup_insert_of_ne _ hne]
    exact hother

theorem Filled.cons (fill : ReservedTypeFill) (fills : List ReservedTypeFill) {σ₁ : Interner}
    (hne : fill.target ∉ fills.map target)
    (h : Filled structuralHash regular σ σ₁ [fill])
    (hrest : Filled structuralHash regular σ₁ σ' fills) :
    Filled structuralHash regular σ σ' (fill :: fills) where
  row_new := by
    intro other hmem
    rcases mem_cons.mp hmem with rfl | hmem
    · rw [hrest.row_old _ hne]
      exact h.row_new other (by simp)
    · exact hrest.row_new other hmem
  row_old := by
    intro id hid
    simp only [map_cons, mem_cons, not_or] at hid
    rw [hrest.row_old id hid.2]
    exact h.row_old id (by simpa using hid.1)
  reserved_new := by
    intro other hmem
    rcases mem_cons.mp hmem with rfl | hmem
    · rw [hrest.reserved_old _ hne]
      exact h.reserved_new other (by simp)
    · exact hrest.reserved_new other hmem
  reserved_old := by
    intro id hid
    simp only [map_cons, mem_cons, not_or] at hid
    rw [hrest.reserved_old id hid.2]
    exact h.reserved_old id (by simpa using hid.1)
  dedup_eq := hrest.dedup_eq.trans h.dedup_eq
  dedupBase_eq := hrest.dedupBase_eq.trans h.dedupBase_eq
  frame := h.frame.trans hrest.frame
  steps := h.steps.trans hrest.steps

/-- All fills of a batch without duplicates are written. -/
theorem foldlM_applyFill (hσ : σ.Consed structuralHash regular) (fills : List ReservedTypeFill)
    (hnodup : (fills.map target).Nodup) (hdue : ∀ fill ∈ fills, σ.Due fill) :
    ∃ σ', fills.foldlM applyFill σ = some σ' ∧ Filled structuralHash regular σ σ' fills ∧
      σ'.store.semanticGraphIdentity = σ.store.semanticGraphIdentity := by
  induction fills generalizing σ with
  | nil =>
    exact ⟨σ, rfl, ⟨fun _ h => by simp at h, fun _ _ => rfl, fun _ h => by simp at h,
      fun _ _ => rfl, rfl, rfl, .refl σ, .refl⟩, rfl⟩
  | cons fill fills ih =>
    rw [map_cons, nodup_cons] at hnodup
    obtain ⟨σ₁, happly, hfilled, hidentity, hother⟩ := applyFill_of_due hσ (hdue fill (by simp))
    have hdue₁ : ∀ other ∈ fills, σ₁.Due other := by
      intro other hmem
      refine hother other (fun heq => hnodup.1 ?_) (hdue other (by simp [hmem]))
      rw [← heq]
      exact mem_map_of_mem hmem
    obtain ⟨σ', hrun, hrest, hidentity'⟩ := ih (hσ.steps hfilled.steps) hnodup.2 hdue₁
    refine ⟨σ', ?_, hfilled.cons fill fills hnodup.1 hrest, hidentity'.trans hidentity⟩
    rw [foldlM_cons, happly]
    exact hrun

theorem nodup_of_firstDuplicate {K : Type} [DecidableEq K] {seen : FxHashSet K} {ids : List K}
    (h : firstDuplicate seen ids = none) : ids.Nodup ∧ ∀ id ∈ ids, id ∉ seen := by
  induction ids generalizing seen with
  | nil => exact ⟨nodup_nil, fun _ h => by simp at h⟩
  | cons id ids ih =>
    rw [firstDuplicate] at h
    split at h
    · cases h
    · rename_i hseen
      obtain ⟨hnodup, hnotin⟩ := ih h
      refine ⟨nodup_cons.mpr ⟨fun hmem => hnotin id hmem (by simp), hnodup⟩, ?_⟩
      intro other hmem
      rcases mem_cons.mp hmem with rfl | hmem
      · exact hseen
      · exact fun hother => hnotin other hmem (by simp [hother])

theorem due_of_validateFill (hσ : σ.Consed structuralHash regular)
    (h : σ.validateFill fill = .ok ()) : σ.Due fill := by
  unfold validateFill at h
  dsimp only at h
  split at h
  · cases h
  · rename_i reserved hreserved
    split at h
    · cases h
    · rename_i hkind
      split at h
      · cases h
      · rename_i hstate
        -- a sealed reservation is frozen, so this one is local
        unfold reservedType at hreserved
        cases hbase : σ.reservedTypesBase.lookup fill.target with
        | some sealedType =>
          rw [hbase, some_or, some.injEq] at hreserved
          exact absurd ((hreserved ▸ (hσ.reserved_base _ _ hbase).2)) hstate
        | none =>
          rw [hbase, none_or] at hreserved
          rcases reserved with ⟨kind, state⟩
          cases state
          · have hkind' : kind = fill.kind := not_not.mp hkind
            rw [Due, hreserved, hkind']
          · exact absurd rfl hstate

theorem forM_eq_ok {α ε : Type} {f : α → Except ε Unit} {xs : List α} (h : xs.forM f = .ok ()) :
    ∀ x ∈ xs, f x = .ok () := by
  induction xs with
  | nil => simp
  | cons x xs ih =>
    change (f x >>= fun _ => xs.forM f) = .ok () at h
    cases hx : f x with
    | error e =>
      rw [hx] at h
      cases h
    | ok u =>
      rw [hx] at h
      intro y hy
      rcases mem_cons.mp hy with rfl | hy
      · exact hx
      · exact ih h y hy

section Fills

variable (hσ : σ.Consed structuralHash regular)
include hσ

/-- **A validated batch is written as a whole.** -/
theorem filled_of_validateFills {fills : List ReservedTypeFill} (h : σ.validateFills fills = .ok ()) :
    ∃ σ', σ.fillReservedTypeBatch fills = some (.ok (), σ') ∧
      Filled structuralHash regular σ σ' fills ∧ σ'.store.semanticGraphIdentity
        = if fills.isEmpty then σ.store.semanticGraphIdentity
          else σ.store.semanticGraphIdentity + 1 := by
  have hvalid : (fills.map target).Nodup ∧ ∀ fill ∈ fills, σ.Due fill := by
    unfold validateFills at h
    split at h
    · cases h
    · rename_i hdup
      exact ⟨(nodup_of_firstDuplicate hdup).1,
        fun fill hmem => due_of_validateFill hσ (forM_eq_ok h fill hmem)⟩
  -- marking the graph as changed touches no row
  obtain ⟨marked, hmark, hstep, hrow, hreserved, hlocal, hdedup, hdedupBase, hframe, hidentity⟩ :
      ∃ marked, marked = (if fills.isEmpty then σ
          else { σ with store := σ.store.markSemanticGraphMutation }) ∧
        CoreStep structuralHash regular σ marked ∧ (∀ id, marked.store.row id = σ.store.row id) ∧
        marked.reservedType = σ.reservedType ∧ marked.reservedTypes = σ.reservedTypes ∧
        marked.dedup = σ.dedup ∧ marked.dedupBase = σ.dedupBase ∧ SameFrame σ marked ∧
        marked.store.semanticGraphIdentity = if fills.isEmpty then σ.store.semanticGraphIdentity
          else σ.store.semanticGraphIdentity + 1 := by
    refine ⟨_, rfl, ?_⟩
    split
    · exact ⟨(SameCore.refl σ).step hσ, fun _ => rfl, rfl, rfl, rfl, rfl, .refl σ, rfl⟩
    · exact ⟨.side (fun _ => rfl) (fun _ _ h => h) (fun _ _ h => .inl h) rfl
        { hσ.wellFormed with } (fun _ => rfl) rfl rfl rfl rfl, fun _ => rfl, rfl, rfl, rfl, rfl,
        ⟨rfl, rfl, rfl, rfl, rfl, rfl, rfl, ⟨rfl, rfl, rfl⟩⟩, rfl⟩
  obtain ⟨σ', hrun, hfilled, hidentity'⟩ := foldlM_applyFill (hσ.step hstep) fills hvalid.1 (by
    intro fill hmem
    rw [Due, hlocal]
    exact hvalid.2 fill hmem)
  refine ⟨σ', ?_, ?_, hidentity'.trans hidentity⟩
  · rw [fillReservedTypeBatch, h]
    show (fills.foldlM applyFill (if fills.isEmpty then σ
      else { σ with store := σ.store.markSemanticGraphMutation })).bind _ = _
    rw [← hmark, hrun]
    rfl
  · exact
      { row_new := hfilled.row_new
        row_old := fun id hid => (hfilled.row_old id hid).trans (hrow id)
        reserved_new := hfilled.reserved_new
        reserved_old := fun id hid => (hfilled.reserved_old id hid).trans (congrFun hreserved id)
        dedup_eq := hfilled.dedup_eq.trans hdedup
        dedupBase_eq := hfilled.dedupBase_eq.trans hdedupBase
        frame := hframe.trans hfilled.frame
        steps := .trans (.single hstep) hfilled.steps }

/-- A batch never panics; an error leaves the interner as it was. -/
theorem fillReservedTypeBatch_cases (fills : List ReservedTypeFill) :
    (∃ error, σ.fillReservedTypeBatch fills = some (.error error, σ)) ∨
      ∃ σ', σ.fillReservedTypeBatch fills = some (.ok (), σ') ∧
        Filled structuralHash regular σ σ' fills ∧ σ'.store.semanticGraphIdentity
          = if fills.isEmpty then σ.store.semanticGraphIdentity
            else σ.store.semanticGraphIdentity + 1 := by
  cases h : σ.validateFills fills with
  | error error =>
    left
    exact ⟨error, by rw [fillReservedTypeBatch, h]⟩
  | ok u => exact .inr (filled_of_validateFills hσ h)

theorem steps_fillReservedTypeBatch {fills : List ReservedTypeFill}
    {result : Except ReservedTypeFillError Unit × Interner}
    (h : σ.fillReservedTypeBatch fills = some result) :
    Steps structuralHash regular σ result.2 := by
  rcases fillReservedTypeBatch_cases hσ fills with ⟨error, herr⟩ | ⟨σ', hok, hfilled, _⟩
  · rw [herr] at h
    cases h
    exact .refl
  · rw [hok] at h
    cases h
    exact hfilled.steps

theorem steps_expectFill {fill : ReservedTypeFill} (h : σ.expectFill fill = some σ') :
    Steps structuralHash regular σ σ' := by
  obtain ⟨⟨outcome, filled⟩, hfill, h⟩ := bind_eq_some_iff.mp h
  cases outcome with
  | error error => cases h
  | ok u =>
    cases h
    exact (steps_fillReservedTypeBatch hσ hfill :)

/-- A promotion changes nothing, or makes a frozen local object structural. -/
theorem promote_cases (id : TypeId) :
    (∃ result, σ.promoteCallerCertifiedAcyclicReservedObject structuralHash id = (result, σ)) ∨
    ∃ object, σ.reservedTypes.lookup id = some ⟨.object, .frozen⟩ ∧
      σ.store.row id = some (.object object) ∧
      (∀ id' r', σ.Structural id' r' → r'.key ≠ object.key) ∧
      σ.promoteCallerCertifiedAcyclicReservedObject structuralHash id
        = (.ok id, { σ with reservedTypes := σ.reservedTypes.erase id }.pushCandidate
            (structuralHash object.key) id) := by
  unfold promoteCallerCertifiedAcyclicReservedObject
  split
  · exact .inl ⟨_, rfl⟩
  · rename_i hbase
    split
    · exact .inl ⟨_, rfl⟩
    · rename_i reserved hreserved
      split
      · exact .inl ⟨_, rfl⟩
      · rename_i hkind
        split
        · exact .inl ⟨_, rfl⟩
        · rename_i hstate
          split
          · exact .inl ⟨_, rfl⟩
          · rename_i object hobject
            dsimp only
            split
            · exact .inl ⟨_, rfl⟩
            · rename_i hlookup
              have hdecides := decides_objectEq σ.store object
              have hlocal : σ.reservedTypes.lookup id = some ⟨.object, .frozen⟩ := by
                rw [reservedType, Finmap.lookup_eq_none.mpr hbase, none_or] at hreserved
                rcases reserved with ⟨kind, state⟩
                simp only [ne_eq, not_not] at hkind hstate
                rw [hreserved, hkind, hstate]
              have hrow : σ.store.row id = some (.object object) :=
                (σ.store.entry_eq_some_iff .objects id object).mp hobject
              exact .inr ⟨object, hlocal, hrow,
                fun id' r' hr' => hσ.lookup_eq_none hdecides hlookup hr', rfl⟩

theorem steps_promote (id : TypeId) :
    Steps structuralHash regular σ
      (σ.promoteCallerCertifiedAcyclicReservedObject structuralHash id).2 := by
  rcases promote_cases hσ id with ⟨result, h⟩ | ⟨object, hlocal, hrow, hfresh, h⟩
  · rw [h]
  · rw [h]
    exact .single (.promoted hlocal hrow hfresh rfl)

end Fills

end Fill

/-! ## §3 Side columns, sealing and forking -/

section Columns

variable {σ σ' : Interner}

/-- A store with other side columns shows the same rows, and may have moved its identity. -/
structure SameRows (s s' : Store) : Prop where
  row_eq : ∀ id, s'.row id = s.row id
  identity_le : s.semanticGraphIdentity ≤ s'.semanticGraphIdentity
  recipes_eq : s'.declaredRecipes = s.declaredRecipes
  baseLen_eq : s'.baseLen = s.baseLen
  layers_eq : s'.layers = s.layers
  wellFormed : s'.WellFormed

theorem SameRows.refl {s : Store} (hs : s.WellFormed) : SameRows s s :=
  ⟨fun _ => rfl, le_rfl, rfl, rfl, rfl, hs⟩

theorem SameRows.steps {s' : Store} (h : SameRows σ.store s') :
    Steps structuralHash regular σ { σ with store := s' } :=
  .single (.side h.row_eq
    (fun id recipe hrecipe => by rw [← hrecipe, declaredRecipe, h.recipes_eq]; rfl)
    (fun id recipe hrecipe => .inl (by rw [← hrecipe, declaredRecipe, ← h.recipes_eq]; rfl))
    h.baseLen_eq h.wellFormed (fun _ => rfl) rfl rfl rfl (by simp only [layers, h.layers_eq]))

theorem sameRows_constraints {s : Store} (hs : s.WellFormed)
    {constraints : LayeredMap TypeParamId TypeId}
    (h : constraints.Plain ∧ constraints.sealed = s.typeParamConstraints.sealed)
    (hbase : constraints.base = s.typeParamConstraints.base) (changed : Prop)
    [Decidable changed] :
    SameRows s (if changed then
      { s with typeParamConstraints := constraints }.markSemanticGraphMutation
      else { s with typeParamConstraints := constraints }) := by
  have hwf : { s with typeParamConstraints := constraints }.WellFormed :=
    { hs with
      plain_constraints := h.1
      sealed_constraints := h.2.trans hs.sealed_constraints }
  have hlayers : ({ s with typeParamConstraints := constraints } : Store).layers = s.layers := by
    unfold Store.layers
    rw [hbase]
  split
  · exact ⟨fun _ => rfl, Nat.le_succ _, rfl, rfl, hlayers, { hwf with }⟩
  · exact ⟨fun _ => rfl, le_rfl, rfl, rfl, hlayers, hwf⟩

theorem sameRows_setTypeParamConstraint {s : Store} (hs : s.WellFormed) (id : TypeParamId)
    (constraint : TypeId) : SameRows s (s.setTypeParamConstraint id constraint).2 := by
  unfold Store.setTypeParamConstraint
  split
  · exact .refl hs
  · split
    · exact .refl hs
    · rename_i previous constraints hinsert
      exact sameRows_constraints hs (LayeredMap.plain_insertLocal hs.plain_constraints hinsert)
        (LayeredMap.base_of_insertLocal hinsert) _

theorem sameRows_removeTypeParamConstraint {s : Store} (hs : s.WellFormed) (id : TypeParamId) :
    SameRows s (s.removeTypeParamConstraint id).2 := by
  unfold Store.removeTypeParamConstraint
  split
  · exact .refl hs
  · split
    · exact .refl hs
    · rename_i removed constraints hremove
      exact sameRows_constraints hs (LayeredMap.plain_removeLocal hs.plain_constraints hremove)
        (LayeredMap.base_of_removeLocal hremove) _

theorem plain_insertFrozen (ids : List TypeParamId) :
    ∀ {frozen : LayeredSet TypeParamId}, frozen.Plain →
      (insertFrozen frozen ids).2.Plain ∧
        (insertFrozen frozen ids).2.sealed = frozen.sealed ∧
        (insertFrozen frozen ids).2.base = frozen.base := by
  induction ids with
  | nil => exact fun h => ⟨h, rfl, rfl⟩
  | cons id ids ih =>
    intro frozen h
    rw [insertFrozen]
    split
    · exact ⟨h, rfl, rfl⟩
    · rename_i inserted frozen' hinsert
      obtain ⟨hplain, hsealed⟩ := LayeredSet.plain_insertLocal h hinsert
      obtain ⟨hplain', hsealed', hbase'⟩ := ih hplain
      exact ⟨hplain', hsealed'.trans hsealed,
        hbase'.trans (LayeredSet.base_of_insertLocal hinsert)⟩

theorem sameRows_freezeTypeParamMetadata {s : Store} (hs : s.WellFormed) (ids : List TypeParamId) :
    SameRows s (s.freezeTypeParamMetadata ids).2 := by
  unfold Store.freezeTypeParamMetadata
  split
  · exact .refl hs
  · split
    · exact .refl hs
    · split
      · exact .refl hs
      · obtain ⟨hplain, hsealed, hbase⟩ := plain_insertFrozen ids hs.plain_frozen
        refine ⟨fun _ => rfl, le_rfl, rfl, rfl, ?_, ?_⟩
        · dsimp only
          unfold Store.layers
          rw [hbase]
        exact
          { hs with
            plain_frozen := hplain
            sealed_frozen := hsealed.trans hs.sealed_frozen }

theorem sameCore_alignCaches (σ : Interner) : SameCore σ σ.alignCaches := rfl

theorem frozen_of_hasPendingReservation (h : σ.hasPendingReservation = false) {id : TypeId}
    {reserved : ReservedType} (hres : σ.reservedTypes.lookup id = some reserved) :
    reserved.state = .frozen := by
  unfold hasPendingReservation at h
  simp only [decide_eq_false_iff_not, not_exists, not_and] at h
  have hid := h id (Finmap.mem_keys.mpr (Finmap.mem_of_lookup_eq_some hres))
  rw [hres] at hid
  rcases reserved with ⟨kind, state⟩
  cases state
  · exact absurd rfl hid
  · rfl

/-- What sealing does when the interner may be sealed. -/
theorem freezeAsBase_cases (σ : Interner) :
    (∃ error, σ.freezeAsBase = (.error error, σ)) ∨
    (∃ error, σ.freezeAsBase = (.error error, σ.alignCaches)) ∨
    (σ.dedupBase = ∅ ∧ σ.reservedTypesBase = ∅ ∧ σ.declaredRecipeBase = ∅ ∧
      σ.hasPendingReservation = false ∧ ∃ store, σ.store.freezeAsBase = .ok store ∧
      σ.freezeAsBase = (.ok (), { σ.alignCaches with
        store
        freeParamSummaries := σ.alignCaches.freeParamSummaries.freezeAsBase
        applicationKeyModes := σ.alignCaches.applicationKeyModes.freezeAsBase
        cleanApplicationResults := σ.alignCaches.cleanApplicationResults.freezeAsBase
        dedupBase := σ.dedup
        dedup := ∅
        declaredRecipeBase := σ.declaredRecipeLocal
        declaredRecipeLocal := ∅
        reservedTypesBase := σ.reservedTypes
        reservedTypes := ∅ })) := by
  unfold freezeAsBase
  split
  · exact .inl ⟨_, rfl⟩
  · rename_i hsealed
    simp only [Bool.or_eq_true, Bool.not_eq_true', not_or, Bool.not_eq_false,
      FxHashMap.isEmpty_iff] at hsealed
    obtain ⟨⟨hdedup, hreserved⟩, hrecipes⟩ := hsealed
    split
    · exact .inl ⟨_, rfl⟩
    · rename_i hpending
      dsimp only
      cases hstore : σ.alignCaches.store.freezeAsBase with
      | error error => exact .inr (.inl ⟨error, rfl⟩)
      | ok store =>
        exact .inr (.inr ⟨hdedup, hreserved, hrecipes, by simpa using hpending, store, hstore, rfl⟩)

theorem steps_freezeAsBase (hσ : σ.Consed structuralHash regular) :
    Steps structuralHash regular σ σ.freezeAsBase.2 := by
  rcases freezeAsBase_cases σ with ⟨error, h⟩ | ⟨error, h⟩ |
    ⟨hdedup, hreserved, _, hpending, store, hstore, h⟩
  · rw [h]
  · rw [h]
    exact .single ((sameCore_alignCaches σ).step hσ)
  · rw [h]
    obtain ⟨hresealed, _, _⟩ := resealed_freezeAsBase hσ.wellFormed hstore
    refine .single (.resealed hresealed ?_ ?_ rfl ?_ rfl (fun hclosed => ?_))
    · intro hash
      simp [bucket, hdedup]
    · intro id
      simp [reservedType, hreserved]
    · exact fun id reserved hres => frozen_of_hasPendingReservation hpending hres
    · have hopen : σ.store.freezeAsBase = .error "store is already sealed" := by
        simp [Store.freezeAsBase, LayeredVec.isSealed, hclosed]
      rw [hopen] at hstore
      cases hstore

/-- What forking does when it succeeds. -/
theorem of_forkDelta (h : σ.forkDelta = .ok σ') :
    σ.dedup = ∅ ∧ σ.reservedTypes = ∅ ∧ σ.declaredRecipeLocal = ∅ ∧
      ∃ store, σ.store.forkDelta = .ok store ∧
        σ' = { σ with
          store
          freeParamSummaries := σ.freeParamSummaries.forkDelta store.semanticGraphIdentity
          applicationKeyModes := σ.applicationKeyModes.forkDelta store.semanticGraphIdentity
          cleanApplicationResults :=
            σ.cleanApplicationResults.forkDelta store.semanticGraphIdentity } := by
  unfold forkDelta at h
  split at h
  · cases h
  · rename_i hempty
    simp only [Bool.or_eq_true, Bool.not_eq_true', not_or, Bool.not_eq_false,
      FxHashMap.isEmpty_iff] at hempty
    obtain ⟨⟨hdedup, hreserved⟩, hrecipes⟩ := hempty
    obtain ⟨store, hstore, h⟩ := bind_eq_ok h
    cases h
    exact ⟨hdedup, hreserved, hrecipes, store, hstore, rfl⟩

theorem steps_forkDelta (hσ : σ.Consed structuralHash regular) (h : σ.forkDelta = .ok σ') :
    Steps structuralHash regular σ σ' := by
  obtain ⟨_, hreserved, _, store, hstore, rfl⟩ := of_forkDelta h
  obtain ⟨hresealed, _, _⟩ := resealed_forkDelta hσ.wellFormed hstore
  refine .single (.resealed hresealed (fun _ => rfl) (fun _ => rfl) hreserved ?_ rfl
    (fun hclosed => by simp only [layers, hresealed.layers_eq hclosed]))
  exact fun id reserved hres => (hσ.reserved_base id reserved hres).2

end Columns

end Interner

end Typokat.Types
