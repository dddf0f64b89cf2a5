import Typokat.Types.Freshness

/-!
# Sealing and Forking Are Transparent

A fork of a sealed interner shows what the interner showed before it was sealed, so every
operation does the same on both.  What the fork and its siblings share are the layers of
the sealed base, and no operation on one of them writes there.

## Main Results

- `Interner.Steps.layers` : the shared layers of a sealed interner never change
- `Interner.alike_step` : one operation does the same on interners alike
- `Interner.fork_transparent` : sealing and forking are transparent and forks are isolated
-/

namespace Typokat.Types

open OpResult Option Store

variable {structuralHash : StructuralKey → Nat} {regular : Prop}

namespace Interner

variable {σ σ' τ : Interner}

/-! ## §1 Shared layers -/

theorem CoreStep.layers (h : CoreStep structuralHash regular σ σ')
    (hsealed : σ.store.tagColumn.sealed = true) : σ'.layers = σ.layers := by
  cases h with
  | interned hint =>
    rw [hint.rest_eq]
    simp only [Interner.layers, hint.appended.layers_eq]
    rfl
  | reserved happ _ _ heq =>
    rw [heq]
    simp only [Interner.layers, happ.layers_eq]
  | filled _ _ _ hrep heq =>
    rw [heq]
    simp only [Interner.layers, hrep.layers_eq]
  | promoted _ _ _ heq =>
    rw [heq]
    rfl
  | resealed _ _ _ _ _ _ hlayers => exact hlayers hsealed
  | side _ _ _ _ _ _ _ _ _ hlayers => exact hlayers

/-- **The layers of a sealed interner never change.** -/
theorem Steps.layers (h : Steps structuralHash regular σ σ')
    (hsealed : σ.store.tagColumn.sealed = true) : σ'.layers = σ.layers := by
  induction h with
  | refl => rfl
  | tail _ hstep ih =>
    have hsealed' := congrArg (fun layers : Layers => layers.store.sealed) ih
    exact (hstep.layers (hsealed'.trans hsealed)).trans ih

/-- An interner that was never sealed has no base. -/
def Bare (σ : Interner) : Prop :=
  σ.store.tagColumn.sealed = false →
    σ.dedupBase = ∅ ∧ σ.reservedTypesBase = ∅ ∧ σ.declaredRecipeBase = ∅

theorem Bare.of_layers (h : σ.Bare) (hlayers : σ'.layers = σ.layers) : σ'.Bare := by
  intro hopen
  have hsealed := congrArg (fun layers : Layers => layers.store.sealed) hlayers
  have hdedup := congrArg Layers.dedup hlayers
  have hreserved := congrArg Layers.reserved hlayers
  have hrecipes := congrArg Layers.recipes hlayers
  obtain ⟨h₁, h₂, h₃⟩ := h (hsealed.symm.trans hopen)
  exact ⟨hdedup.trans h₁, hreserved.trans h₂, hrecipes.trans h₃⟩

theorem CoreStep.bare (h : CoreStep structuralHash regular σ σ') (hσ : σ.Bare) : σ'.Bare := by
  cases h with
  | interned hint =>
    refine hσ.of_layers ?_
    rw [hint.rest_eq]
    simp only [Interner.layers, hint.appended.layers_eq]
    rfl
  | reserved happ _ _ heq =>
    refine hσ.of_layers ?_
    rw [heq]
    simp only [Interner.layers, happ.layers_eq]
  | filled _ _ _ hrep heq =>
    refine hσ.of_layers ?_
    rw [heq]
    simp only [Interner.layers, hrep.layers_eq]
  | promoted _ _ _ heq =>
    rw [heq]
    exact hσ
  | resealed hresealed _ _ _ _ _ _ =>
    intro hopen
    rw [hresealed.sealed_eq] at hopen
    cases hopen
  | side _ _ _ _ _ _ _ _ _ hlayers => exact hσ.of_layers hlayers

theorem Steps.bare (h : Steps structuralHash regular σ σ') (hσ : σ.Bare) : σ'.Bare := by
  induction h with
  | refl => exact hσ
  | tail _ hstep ih => exact hstep.bare ih

theorem bare_withIntrinsics : (withIntrinsics structuralHash).Bare := by
  have hempty : Interner.empty.Consed structuralHash False := consed_empty
  have hmade := (steps_internIntrinsics IntrinsicKind.all (fun _ => 0) hempty).bare
    (fun _ => ⟨rfl, rfl, rfl⟩)
  unfold withIntrinsics
  generalize Interner.empty.internIntrinsics structuralHash (fun _ => 0) IntrinsicKind.all = made
    at hmade
  obtain ⟨idOf, σ⟩ := made
  exact hmade

theorem Reachable.bare (h : σ.Reachable structuralHash) : σ.Bare := by
  obtain ⟨fuel, history, results, hrun⟩ := h
  exact Steps.bare (steps_runHistory consed_withIntrinsics (fun _ _ => False.elim) hrun)
    bare_withIntrinsics

/-! ## §2 A fork is alike -/

end Interner

namespace Store

variable {s s' : Store}

/-- **An open arena can be sealed.** -/
theorem freezeAsBase_ok (hs : s.WellFormed) (hopen : s.tagColumn.sealed = false) :
    ∃ s', s.freezeAsBase = .ok s' := by
  obtain ⟨tagColumn, htag⟩ := LayeredVec.freezeAsBase_ok hs.plain_tag hopen
  obtain ⟨flagsColumn, hflags⟩ :=
    LayeredVec.freezeAsBase_ok hs.plain_flags (hs.sealed_flags.trans hopen)
  obtain ⟨payloadColumn, hpayload⟩ :=
    LayeredVec.freezeAsBase_ok hs.plain_payload (hs.sealed_payload.trans hopen)
  obtain ⟨tables, htables⟩ := mapTables_ok (f := LayeredVec.freezeAsBase) (fun t =>
    LayeredVec.freezeAsBase_ok (hs.plain_tables t) ((hs.sealed_tables t).trans hopen))
  obtain ⟨names, hnames⟩ :=
    LayeredMap.freezeAsBase_ok hs.plain_names (hs.sealed_names.trans hopen)
  obtain ⟨recipes, hrecipes⟩ :=
    LayeredVec.freezeAsBase_ok hs.plain_recipes (hs.sealed_recipes.trans hopen)
  obtain ⟨constraints, hconstraints⟩ :=
    LayeredMap.freezeAsBase_ok hs.plain_constraints (hs.sealed_constraints.trans hopen)
  obtain ⟨frozen, hfrozen⟩ :=
    LayeredSet.freezeAsBase_ok hs.plain_frozen (hs.sealed_frozen.trans hopen)
  have hsealed : s.tagColumn.isSealed = false := hopen
  exact ⟨{ semanticGraphIdentity := s.semanticGraphIdentity
           sealedTypeParamIds := s.typeParamIds
           tagColumn, flagsColumn, payloadColumn, tables
           typeParamNames := names
           declaredRecipes := recipes
           typeParamConstraints := constraints
           frozenTypeParams := frozen },
    by simp only [freezeAsBase, hsealed, htag, hflags, hpayload, htables, hnames, hrecipes,
      hconstraints, hfrozen]; rfl⟩

/-- **A sealed arena can be forked.** -/
theorem forkDelta_ok (h : s.freezeAsBase = .ok s') : ∃ fork, s'.forkDelta = .ok fork := by
  unfold freezeAsBase at h
  split at h
  · cases h
  obtain ⟨tagColumn, htag, h⟩ := bind_eq_ok h
  obtain ⟨flagsColumn, hflags, h⟩ := bind_eq_ok h
  obtain ⟨payloadColumn, hpayload, h⟩ := bind_eq_ok h
  obtain ⟨tables, htables, h⟩ := bind_eq_ok h
  obtain ⟨names, hnames, h⟩ := bind_eq_ok h
  obtain ⟨recipes, hrecipes, h⟩ := bind_eq_ok h
  obtain ⟨constraints, hconstraints, h⟩ := bind_eq_ok h
  obtain ⟨frozen, hfrozen, h⟩ := bind_eq_ok h
  have hforks : ∀ {T : Type} {v w : LayeredVec T}, v.freezeAsBase = .ok w →
      ∃ fork, w.forkDelta = .ok fork := by
    intro T v w hv
    obtain ⟨hreseals, hsuffix⟩ := LayeredVec.of_freezeAsBase hv
    exact LayeredVec.forkDelta_ok hreseals.plain hreseals.sealed_eq hsuffix
  obtain ⟨⟨hnplain, hnsealed, _⟩, hnsuffix⟩ := LayeredMap.of_freezeAsBase hnames
  obtain ⟨⟨hcplain, hcsealed, _⟩, hcsuffix⟩ := LayeredMap.of_freezeAsBase hconstraints
  obtain ⟨_, hfsealed, hfsuffix⟩ := LayeredSet.of_freezeAsBase hfrozen
  obtain ⟨tagColumn', htag'⟩ := hforks htag
  obtain ⟨flagsColumn', hflags'⟩ := hforks hflags
  obtain ⟨payloadColumn', hpayload'⟩ := hforks hpayload
  obtain ⟨tables', htables'⟩ := mapTables_ok (f := LayeredVec.forkDelta)
    (fun t => hforks (mapTables_eq_ok htables t))
  obtain ⟨names', hnames'⟩ := LayeredMap.forkDelta_ok hnplain hnsealed hnsuffix
  obtain ⟨recipes', hrecipes'⟩ := hforks hrecipes
  obtain ⟨constraints', hconstraints'⟩ := LayeredMap.forkDelta_ok hcplain hcsealed hcsuffix
  obtain ⟨frozen', hfrozen'⟩ := LayeredSet.forkDelta_ok hfsealed hfsuffix
  cases h
  exact ⟨{ semanticGraphIdentity := s.semanticGraphIdentity + 1
           sealedTypeParamIds := s.typeParamIds
           tagColumn := tagColumn'
           flagsColumn := flagsColumn'
           payloadColumn := payloadColumn'
           tables := tables'
           typeParamNames := names'
           declaredRecipes := recipes'
           typeParamConstraints := constraints'
           frozenTypeParams := frozen' },
    by simp only [forkDelta, htag', hflags', hpayload', htables', hnames', hrecipes',
      hconstraints', hfrozen']; rfl⟩

end Store

namespace Interner

variable {σ σ' τ : Interner}

theorem Alike.of_resealed (hresealed : Store.Resealed σ.store τ.store)
    (hbucket : ∀ hash, τ.bucket hash = σ.bucket hash)
    (hreserved : ∀ id, τ.reservedType id = σ.reservedType id)
    (hindex : ∀ recipe,
      (τ.declaredRecipeLocal.lookup recipe).or (τ.declaredRecipeBase.lookup recipe)
        = (σ.declaredRecipeLocal.lookup recipe).or (σ.declaredRecipeBase.lookup recipe))
    (hwellKnown : τ.wellKnown = σ.wellKnown) : Alike σ τ :=
  ⟨hresealed.len_eq, hresealed.row_eq, hbucket, hreserved, hresealed.recipes_eq,
    hresealed.recipesLen_eq, hindex, hresealed.names_eq, hresealed.constraints_eq, hwellKnown⟩

/-- **An open interner without pending reservations can be sealed and forked, and base and fork
    show what it showed.** -/
theorem forks_alike (hσ : σ.Consed structuralHash regular) (hbare : σ.Bare)
    (hopen : σ.store.tagColumn.sealed = false) (hpending : σ.hasPendingReservation = false) :
    ∃ base fork, σ.freezeAsBase = (.ok (), base) ∧ base.forkDelta = .ok fork ∧
      Alike σ base ∧ Alike σ fork ∧ base.store.tagColumn.sealed = true ∧
      fork.store.tagColumn.sealed = true ∧ fork.layers = base.layers := by
  obtain ⟨hdedup, hreserved, hrecipes⟩ := hbare hopen
  obtain ⟨store, hstore⟩ := freezeAsBase_ok hσ.wellFormed hopen
  obtain ⟨hresealed, _, hsealed⟩ := resealed_freezeAsBase hσ.wellFormed hstore
  obtain ⟨forked, hforked⟩ := forkDelta_ok hstore
  obtain ⟨hresealed', _, hsealed', _⟩ := resealed_forkDelta hresealed.wellFormed hforked
  obtain ⟨base, hbase, halike, hbstore, hbdedup, hbreserved, hbrecipes⟩ :
      ∃ base, σ.freezeAsBase = (.ok (), base) ∧ Alike σ base ∧ base.store = store ∧
        base.dedup = ∅ ∧ base.reservedTypes = ∅ ∧ base.declaredRecipeLocal = ∅ := by
    refine ⟨{ σ.alignCaches with
        store
        freeParamSummaries := σ.alignCaches.freeParamSummaries.freezeAsBase
        applicationKeyModes := σ.alignCaches.applicationKeyModes.freezeAsBase
        cleanApplicationResults := σ.alignCaches.cleanApplicationResults.freezeAsBase
        dedupBase := σ.dedup
        dedup := ∅
        declaredRecipeBase := σ.declaredRecipeLocal
        declaredRecipeLocal := ∅
        reservedTypesBase := σ.reservedTypes
        reservedTypes := ∅ }, ?_, ?_, rfl, rfl, rfl, rfl⟩
    · have hcore : σ.alignCaches.store = σ.store := rfl
      unfold freezeAsBase
      simp only [hdedup, hreserved, hrecipes, FxHashMap.isEmpty_empty, hpending, hcore, hstore]
      rfl
    · refine .of_resealed hresealed ?_ ?_ ?_ rfl
      · intro hash
        simp [bucket, hdedup]
      · intro id
        simp [reservedType, hreserved]
      · intro recipe
        simp [hrecipes]
  subst hbstore
  refine ⟨base, { base with
    store := forked
    freeParamSummaries := base.freeParamSummaries.forkDelta forked.semanticGraphIdentity
    applicationKeyModes := base.applicationKeyModes.forkDelta forked.semanticGraphIdentity
    cleanApplicationResults :=
      base.cleanApplicationResults.forkDelta forked.semanticGraphIdentity },
    hbase, ?_, halike, ?_, hsealed, hsealed', ?_⟩
  · unfold forkDelta
    simp only [hbdedup, hbreserved, hbrecipes, FxHashMap.isEmpty_empty, hforked]
    rfl
  · exact halike.trans (.of_resealed hresealed' (fun _ => rfl) (fun _ => rfl) (fun _ => rfl) rfl)
  · simp only [layers, hresealed'.layers_eq hsealed]

/-! ## §3 The same operation on both -/

/-- A constructor whose closure reads rows only decides the same on both. -/
theorem Alike.internWith (h : Alike σ τ) {key : StructuralKey} {eq : Store → TypeId → Bool}
    {push : Store → TypeId × Store} {r : Row} (heq : ∀ id, eq τ.store id = eq σ.store id)
    (hid : (push σ.store).1 = σ.store.len) (hid' : (push τ.store).1 = τ.store.len)
    (happ : Store.Appended σ.store (push σ.store).2 r)
    (happ' : Store.Appended τ.store (push τ.store).2 r)
    (hname : ∀ id, (push τ.store).2.typeParamNames.get id
      = (push σ.store).2.typeParamNames.get id) :
    (τ.internWith structuralHash key eq push).1 = (σ.internWith structuralHash key eq push).1 ∧
      Alike (σ.internWith structuralHash key eq push).2
        (τ.internWith structuralHash key eq push).2 := by
  have hlookup : τ.lookup (structuralHash key) eq = σ.lookup (structuralHash key) eq := by
    unfold lookup
    rw [h.bucket, funext heq]
  unfold Interner.internWith
  dsimp only
  rw [hlookup]
  cases σ.lookup (structuralHash key) eq with
  | some existing => exact ⟨rfl, h⟩
  | none =>
    have hids : (push τ.store).1 = (push σ.store).1 := by rw [hid, hid', h.len]
    refine ⟨hids, ?_⟩
    rw [hids]
    exact (h.appended happ happ' hname).pushCandidate _ _

theorem Alike.internLiteral (h : Alike σ τ) (hσ : σ.Consed structuralHash regular)
    (hτ : τ.Consed structuralHash regular) (value : LiteralValue) :
    (τ.internLiteral structuralHash value).1 = (σ.internLiteral structuralHash value).1 ∧
      Alike (σ.internLiteral structuralHash value).2 (τ.internLiteral structuralHash value).2 :=
  h.internWith
    (fun id => by rw [literalValue, literalValue, entry_congr (h.row id)])
    rfl rfl (appended_pushEntry (t := .literals) hσ.wellFormed)
    (appended_pushEntry (t := .literals) hτ.wellFormed) h.name

theorem Alike.internTypeParam (h : Alike σ τ) (hσ : σ.Consed structuralHash regular)
    (hτ : τ.Consed structuralHash regular) (id : TypeParamId) (name : String) :
    (τ.internTypeParam structuralHash id name).1 = (σ.internTypeParam structuralHash id name).1 ∧
      Alike (σ.internTypeParam structuralHash id name).2
        (τ.internTypeParam structuralHash id name).2 := by
  have happ := @appended_pushTypeParam _ .empty hσ.wellFormed ⟨id, name⟩
  have happ' := @appended_pushTypeParam _ .empty hτ.wellFormed ⟨id, name⟩
  rw [h.name] at happ'
  refine h.internWith (fun ty => ?_) rfl rfl happ happ' (fun other => ?_)
  · rw [typeParam, typeParam, entry_congr (h.row ty)]
  · rw [names_pushTypeParam hσ.wellFormed, names_pushTypeParam hτ.wellFormed, h.name, h.name]

theorem reservedType_len (hσ : σ.Consed structuralHash regular) :
    σ.reservedType σ.store.len = none := by
  cases hres : σ.reservedType σ.store.len with
  | none => rfl
  | some reserved =>
    obtain ⟨r, hr, _⟩ := hσ.reserved_row _ _ hres
    exact absurd (hσ.wellFormed.lt_of_row hr) (lt_irrefl _)

theorem reservedType_insert {id : TypeId} {reserved : ReservedType} {store : Store}
    (hfree : σ.reservedType id = none) (other : TypeId) :
    reservedType { σ with store, reservedTypes := σ.reservedTypes.insert id reserved } other
      = if other = id then some reserved else σ.reservedType other := by
  rw [reservedType, or_eq_none_iff] at hfree
  show (σ.reservedTypesBase.lookup other).or ((σ.reservedTypes.insert id reserved).lookup other)
    = _
  split
  · rename_i heq
    rw [heq, hfree.1, Finmap.lookup_insert]
    rfl
  · rename_i hne
    rw [Finmap.lookup_insert_of_ne _ hne]
    rfl

/-- Both reserve the same id. -/
theorem Alike.reserved (h : Alike σ τ) (hσ : σ.Consed structuralHash regular)
    (hτ : τ.Consed structuralHash regular) {s t : Store} {r : Row} {kind : ReservedTypeKind}
    (hs : Store.Appended σ.store s r) (ht : Store.Appended τ.store t r)
    (hr : r.tag ≠ .typeParam) :
    Alike { σ with
        store := s
        reservedTypes := σ.reservedTypes.insert σ.store.len ⟨kind, .pending⟩ }
      { τ with
        store := t
        reservedTypes := τ.reservedTypes.insert τ.store.len ⟨kind, .pending⟩ } :=
  { h.appended hs ht (fun id => by rw [hs.names_eq hr, ht.names_eq hr, h.name]) with
    reservedType := by
      intro id
      rw [reservedType_insert (reservedType_len hσ), reservedType_insert (reservedType_len hτ),
        h.len, h.reservedType] }

theorem validateFill_alike (h : Alike σ τ) (fill : ReservedTypeFill) :
    τ.validateFill fill = σ.validateFill fill := by
  have hbacking : ∀ kind id, validBackingRow τ.store kind id = validBackingRow σ.store kind id := by
    intro kind id
    cases kind with
    | object => exact congrArg isSome (entry_congr (h.row id) .objects)
    | conditional => exact congrArg isSome (entry_congr (h.row id) .conditionals)
    | mapped => exact congrArg isSome (entry_congr (h.row id) .mapped)
  unfold validateFill
  simp only [h.reservedType, hbacking]

theorem validateFills_alike (h : Alike σ τ) (fills : List ReservedTypeFill) :
    τ.validateFills fills = σ.validateFills fills := by
  unfold validateFills
  rw [funext (validateFill_alike h)]

/-- The same batch was filled in both. -/
theorem Alike.filled (h : Alike σ τ) {τ' : Interner} {fills : List ReservedTypeFill}
    (hσ : Filled structuralHash regular σ σ' fills)
    (hτ : Filled structuralHash regular τ τ' fills) : Alike σ' τ' where
  len := by rw [hσ.frame.len, hτ.frame.len, h.len]
  row := by
    intro id
    by_cases hid : id ∈ fills.map ReservedTypeFill.target
    · obtain ⟨fill, hfill, rfl⟩ := List.mem_map.mp hid
      rw [hσ.row_new fill hfill, hτ.row_new fill hfill]
    · rw [hσ.row_old id hid, hτ.row_old id hid, h.row]
  bucket := by
    intro hash
    unfold Interner.bucket
    rw [hσ.dedup_eq, hσ.dedupBase_eq, hτ.dedup_eq, hτ.dedupBase_eq]
    exact h.bucket hash
  reservedType := by
    intro id
    by_cases hid : id ∈ fills.map ReservedTypeFill.target
    · obtain ⟨fill, hfill, rfl⟩ := List.mem_map.mp hid
      rw [hσ.reserved_new fill hfill, hτ.reserved_new fill hfill]
    · rw [hσ.reserved_old id hid, hτ.reserved_old id hid, h.reservedType]
  declaredRecipe := by
    intro id
    rw [Store.declaredRecipe, Store.declaredRecipe, hσ.frame.recipes, hτ.frame.recipes]
    exact h.declaredRecipe id
  recipesLen := by rw [hσ.frame.recipes, hτ.frame.recipes, h.recipesLen]
  recipeIndex := by
    intro recipe
    rw [hσ.frame.recipeLocal, hσ.frame.recipeBase, hτ.frame.recipeLocal, hτ.frame.recipeBase,
      h.recipeIndex]
  name := by
    intro id
    rw [hσ.frame.names, hτ.frame.names, h.name]
  constraint := by
    intro id
    rw [typeParamConstraint, typeParamConstraint, hσ.frame.constraints, hτ.frame.constraints]
    exact h.constraint id
  wellKnown := by rw [hσ.frame.wellKnown, hτ.frame.wellKnown, h.wellKnown]

/-- **A batch is filled in both or rejected by both with the same error.** -/
theorem Alike.fillReservedTypeBatch (h : Alike σ τ) (hσ : σ.Consed structuralHash regular)
    (hτ : τ.Consed structuralHash regular) {fills : List ReservedTypeFill}
    {result : Except ReservedTypeFillError Unit × Interner}
    (hrun : σ.fillReservedTypeBatch fills = some result) :
    ∃ τ', τ.fillReservedTypeBatch fills = some (result.1, τ') ∧ Alike result.2 τ' := by
  cases hvalid : σ.validateFills fills with
  | error error =>
    simp only [Interner.fillReservedTypeBatch, hvalid, some.injEq] at hrun
    subst hrun
    refine ⟨τ, ?_, h⟩
    simp only [Interner.fillReservedTypeBatch, validateFills_alike h, hvalid]
  | ok _ =>
    obtain ⟨σ₁, hσ₁, hfilled, _⟩ := filled_of_validateFills hσ hvalid
    obtain ⟨τ₁, hτ₁, hfilled', _⟩ :=
      filled_of_validateFills hτ ((validateFills_alike h fills).trans hvalid)
    rw [hσ₁] at hrun
    cases hrun
    exact ⟨τ₁, hτ₁, h.filled hfilled hfilled'⟩

theorem Alike.expectFill (h : Alike σ τ) (hσ : σ.Consed structuralHash regular)
    (hτ : τ.Consed structuralHash regular) {fill : ReservedTypeFill}
    (hrun : σ.expectFill fill = some σ') :
    ∃ τ', τ.expectFill fill = some τ' ∧ Alike σ' τ' := by
  obtain ⟨⟨outcome, filled⟩, hfill, hrun⟩ := bind_eq_some_iff.mp hrun
  obtain ⟨τ', hτ', halike⟩ := h.fillReservedTypeBatch hσ hτ hfill
  cases outcome with
  | error error => cases hrun
  | ok _ =>
    cases hrun
    refine ⟨τ', ?_, halike⟩
    rw [Interner.expectFill, hτ']
    rfl

/-! ### Declared recipes -/

section Derived

variable (h : Alike σ τ) (hσ : σ.Consed structuralHash regular)
  (hτ : τ.Consed structuralHash regular) (hfresh : CachesFresh structuralHash regular σ)
  (hfresh' : CachesFresh structuralHash regular τ)
include h hσ hτ hfresh hfresh'

theorem derivedFreeParams_alike {ty : TypeId} {derived : List TypeParamId × Interner}
    (hrun : σ.derivedFreeParams ty = some derived) :
    ∃ τ', τ.derivedFreeParams ty = some (derived.1, τ') := by
  obtain ⟨⟨summary, σ'⟩, hcompute, rfl⟩ := map_eq_some_iff.mp hrun
  obtain ⟨hfree, _, _⟩ := hfresh.toSummariesFresh.compute hσ hcompute
  -- summaries are exact, so they do not depend on the caches they were read from
  have hfree' := hfree.extends hσ h.extends
  obtain ⟨⟨summary', τ'⟩, hcompute'⟩ := computeApplicationSummaries_isSome
    (hfresh'.toSummariesFresh.cachedExact hτ) hτ.wellFormed hfree'.grounded
  obtain ⟨hfree'', _, _⟩ := hfresh'.toSummariesFresh.compute hτ hcompute'
  refine ⟨τ', ?_⟩
  rw [derivedFreeParams, hcompute', map_some, hfree''.unique hfree']

theorem deriveDeclaredRecipeFreeParams_alike {node : DeclaredRecipeNode}
    {derived : List TypeParamId × Interner}
    (hrun : σ.deriveDeclaredRecipeFreeParams node = some derived) :
    ∃ τ', τ.deriveDeclaredRecipeFreeParams node = some (derived.1, τ') := by
  unfold deriveDeclaredRecipeFreeParams at hrun ⊢
  simp only [h.declaredRecipe]
  cases node with
  | type ty =>
    obtain ⟨inner, hinner, hrun⟩ := bind_eq_some_iff.mp hrun
    cases hrun
    obtain ⟨τ', hτ'⟩ := derivedFreeParams_alike h hσ hτ hfresh hfresh' hinner
    refine ⟨τ', ?_⟩
    dsimp only
    rw [hτ']
    rfl
  | array child =>
    cases hrun
    exact ⟨τ, rfl⟩
  | readonly child =>
    cases hrun
    exact ⟨τ, rfl⟩
  | tuple elements rest =>
    dsimp only at hrun ⊢
    split at hrun
    · rename_i hrest
      cases hrun
      exact ⟨τ, if_pos hrest⟩
    · cases hrun
  | application template parameters arguments =>
    dsimp only at hrun ⊢
    split at hrun
    · rename_i hbinds
      obtain ⟨inner, hinner, hrun⟩ := bind_eq_some_iff.mp hrun
      cases hrun
      obtain ⟨τ', hτ'⟩ := derivedFreeParams_alike h hσ hτ hfresh hfresh' hinner
      refine ⟨τ', ?_⟩
      rw [if_pos hbinds, hτ']
      rfl
    · cases hrun

theorem Alike.internDeclaredRecipe {node : DeclaredRecipeNode}
    {result : DeclaredRecipeId × Interner} (hrun : σ.internDeclaredRecipe node = some result) :
    ∃ τ', τ.internDeclaredRecipe node = some (result.1, τ') ∧ Alike result.2 τ' := by
  obtain ⟨⟨free, σ₁⟩, hderived, hrun⟩ := bind_eq_some_iff.mp hrun
  obtain ⟨τ₁, hderived'⟩ :=
    deriveDeclaredRecipeFreeParams_alike h hσ hτ hfresh hfresh' hderived
  have h₁ : Alike σ₁ τ₁ := ((Alike.of_sameCore
    (sameCore_deriveDeclaredRecipeFreeParams hderived)).symm.trans h).trans
      (.of_sameCore (sameCore_deriveDeclaredRecipeFreeParams hderived'))
  simp only [Interner.internDeclaredRecipe, hderived', bind_eq_bind, bind_some]
  dsimp only at hrun
  rw [h₁.recipeIndex]
  cases hindex : (σ₁.declaredRecipeLocal.lookup ⟨node, free⟩).or
      (σ₁.declaredRecipeBase.lookup ⟨node, free⟩) with
  | some id =>
    rw [hindex] at hrun
    cases hrun
    exact ⟨τ₁, rfl, h₁⟩
  | none =>
    rw [hindex] at hrun
    cases hrun
    refine ⟨_, congrArg some (Prod.ext h₁.recipesLen rfl), ?_⟩
    exact
      { h₁ with
        declaredRecipe := by
          intro id
          show ((τ₁.store.declaredRecipes.pushLocal ⟨node, free⟩).2).get id
            = ((σ₁.store.declaredRecipes.pushLocal ⟨node, free⟩).2).get id
          by_cases hid : id = σ₁.store.declaredRecipes.len
          · rw [hid, LayeredVec.get_pushLocal_self, ← h₁.recipesLen, LayeredVec.get_pushLocal_self]
          · rw [LayeredVec.get_pushLocal_of_ne _ _ hid,
              LayeredVec.get_pushLocal_of_ne _ _ (h₁.recipesLen ▸ hid)]
            exact h₁.declaredRecipe id
        recipesLen := by
          show ((τ₁.store.declaredRecipes.pushLocal ⟨node, free⟩).2).len
            = ((σ₁.store.declaredRecipes.pushLocal ⟨node, free⟩).2).len
          rw [LayeredVec.len_pushLocal, LayeredVec.len_pushLocal, h₁.recipesLen]
        recipeIndex := by
          intro recipe
          show ((τ₁.declaredRecipeLocal.insert ⟨node, free⟩ τ₁.store.declaredRecipes.len).lookup
              recipe).or _
            = ((σ₁.declaredRecipeLocal.insert ⟨node, free⟩ σ₁.store.declaredRecipes.len).lookup
              recipe).or _
          by_cases hrecipe : recipe = ⟨node, free⟩
          · rw [hrecipe, Finmap.lookup_insert, Finmap.lookup_insert, h₁.recipesLen]
            rfl
          · rw [Finmap.lookup_insert_of_ne _ hrecipe, Finmap.lookup_insert_of_ne _ hrecipe]
            exact h₁.recipeIndex recipe }

end Derived

/-! ### Substitution -/

/-- A substitution that returns does so on every interner alike, whatever its caches hold; the
    fuel it needs there is the same for all of them. -/
theorem substitute_alike (hσ : σ.Consed structuralHash regular)
    (hfresh : CachesFresh structuralHash regular σ) {fuel : Nat} {ty : TypeId}
    {map : FxHashMap TypeParamId TypeId} {result : TypeId × Interner}
    (hrun : substitute structuralHash fuel σ ty map = some result) :
    ∃ N, ∀ τ m, τ.Consed structuralHash regular → CachesFresh structuralHash regular τ →
      Alike σ τ → N ≤ m → ∃ τ', substitute structuralHash m τ ty map = some (result.1, τ') ∧
        Alike result.2 τ' := by
  obtain ⟨⟨outcome, σ'⟩, houtcome, rfl⟩ := map_eq_some_iff.mp hrun
  obtain ⟨n, visit, ρ, hwalk, hresult, _, halike, _⟩ :=
    simulated_substituteWith (simulates_apply fuel) hσ hfresh houtcome
  refine ⟨n, fun τ m hτ hfresh' h hm => ?_⟩
  obtain ⟨ρ', hwalk', hρ⟩ := walk_alike hσ hτ h hwalk
  obtain ⟨⟨outcome', τ'⟩, hout⟩ :=
    returns_substituteWith (returns_apply m) hτ hfresh' (walk_mono hm hwalk')
  obtain ⟨n', visit', ρ'', hwalk'', hresult', _, halike', _⟩ :=
    simulated_substituteWith (simulates_apply m) hτ hfresh' hout
  have hunique := walk_unique hwalk'' hwalk'
  obtain rfl : visit' = visit := congrArg Prod.fst hunique
  obtain rfl : ρ'' = ρ' := congrArg Prod.snd hunique
  refine ⟨τ', ?_, (halike.symm.trans hρ).trans halike'⟩
  rw [substitute, substituteWithOutcome, hout, map_some, ← hresult', hresult]

/-! ## §4 The same history on both -/

/-- On every interner alike the operation returns `result` and leaves them alike. -/
def Repeats (structuralHash : StructuralKey → Nat) (regular : Prop) (σ σ' : Interner)
    (f : Nat → Interner → Option (OpResult × Interner)) (result : OpResult) : Prop :=
  ∃ N, ∀ τ m, τ.Consed structuralHash regular → CachesFresh structuralHash regular τ →
    Alike σ τ → N ≤ m → ∃ τ', f m τ = some (result, τ') ∧ Alike σ' τ'

variable {result : OpResult}

theorem repeats_interning (hσ : σ.Consed structuralHash regular)
    {f : Interner → Option (TypeId × Interner)} (hf : Interning structuralHash regular f)
    (hrun : (f σ).map ofId = some (result, σ')) :
    Repeats structuralHash regular σ σ' (fun _ τ => (f τ).map ofId) result := by
  obtain ⟨made, hmade, heq⟩ := map_eq_some_iff.mp hrun
  cases heq
  refine ⟨0, fun τ m hτ _ h _ => ?_⟩
  obtain ⟨τ', hτ', halike⟩ := (hf σ hσ made hmade).alike τ hτ h
  exact ⟨τ', congrArg (Option.map ofId) hτ', halike⟩

theorem repeats_of_alike {f : Interner → TypeId × Interner}
    (h : ∀ τ : Interner, τ.Consed structuralHash regular → Alike σ τ →
      (f τ).1 = (f σ).1 ∧ Alike (f σ).2 (f τ).2)
    (hrun : some (ofId (f σ)) = some (result, σ')) :
    Repeats structuralHash regular σ σ' (fun _ τ => some (ofId (f τ))) result := by
  cases hrun
  refine ⟨0, fun τ m hτ _ halike _ => ?_⟩
  obtain ⟨hid, halike'⟩ := h τ hτ halike
  exact ⟨(f τ).2, by rw [← hid]; rfl, halike'⟩

theorem repeats_fill (hσ : σ.Consed structuralHash regular)
    (fills : Interner → List ReservedTypeFill) (hfills : ∀ τ, Alike σ τ → fills τ = fills σ)
    (hrun : (σ.fillReservedTypeBatch (fills σ)).map ofFill = some (result, σ')) :
    Repeats structuralHash regular σ σ'
      (fun _ τ => (τ.fillReservedTypeBatch (fills τ)).map ofFill) result := by
  obtain ⟨filled, hfilled, heq⟩ := map_eq_some_iff.mp hrun
  cases heq
  refine ⟨0, fun τ m hτ _ h _ => ?_⟩
  obtain ⟨τ', hτ', halike⟩ := h.fillReservedTypeBatch hσ hτ hfilled
  rw [← hfills τ h] at hτ'
  exact ⟨τ', congrArg (Option.map ofFill) hτ', halike⟩

theorem repeats_expectFill (hσ : σ.Consed structuralHash regular) {fill : ReservedTypeFill}
    (hrun : (σ.expectFill fill).map ofUnit = some (result, σ')) :
    Repeats structuralHash regular σ σ' (fun _ τ => (τ.expectFill fill).map ofUnit)
      result := by
  obtain ⟨filled, hfilled, heq⟩ := map_eq_some_iff.mp hrun
  cases heq
  refine ⟨0, fun τ m hτ _ h _ => ?_⟩
  obtain ⟨τ', hτ', halike⟩ := h.expectFill hσ hτ hfilled
  exact ⟨τ', congrArg (Option.map ofUnit) hτ', halike⟩

/-- **One operation does the same on interners alike.** -/
theorem alike_step (hσ : σ.Consed structuralHash regular)
    (hfresh : CachesFresh structuralHash regular σ) {fuel : Nat} {op : InternerOp}
    (hop : op.Populates)
    (hrun : op.step structuralHash fuel σ = some (result, σ')) :
    Repeats structuralHash regular σ σ' (fun m τ => op.step structuralHash m τ) result := by
  cases opKind structuralHash regular op with
  | interns hstep hspec hkey hname =>
    simp only [hstep] at hrun ⊢
    exact repeats_interning (f := fun σ => some _) hσ (interning_intern hspec hkey hname) hrun
  | literal value => exact repeats_of_alike (fun _ hτ h => h.internLiteral hσ hτ value) hrun
  | typeParam id name =>
    exact repeats_of_alike (fun _ hτ h => h.internTypeParam hσ hτ id name) hrun
  | interning hstep hf =>
    simp only [hstep] at hrun ⊢
    exact repeats_interning hσ hf hrun
  | declaredRecipe node =>
    obtain ⟨made, hmade, heq⟩ := map_eq_some_iff.mp hrun
    cases heq
    refine ⟨0, fun τ m hτ hfresh' h _ => ?_⟩
    obtain ⟨τ', hτ', halike⟩ := h.internDeclaredRecipe hσ hτ hfresh hfresh' hmade
    exact ⟨τ', by simp only [InternerOp.step, hτ']; rfl, halike⟩
  | reserveObject =>
    refine repeats_of_alike (fun τ hτ h => ⟨h.len, ?_⟩) hrun
    exact h.reserved (r := .object {}) hσ hτ
      (appended_pushEntry (t := .objects) hσ.wellFormed)
      (appended_pushEntry (t := .objects) hτ.wellFormed) (fun h => by cases h)
  | reserveConditional =>
    refine repeats_of_alike (fun τ hτ h => ⟨h.len, ?_⟩) hrun
    -- the placeholder is the same body on both sides
    have hbody : τ.errorConditional false = σ.errorConditional false := by
      unfold errorConditional
      rw [h.wellKnown]
    have happ : Store.Appended τ.store
        (τ.store.pushConditional (τ.errorConditional false) .empty).2
        (.conditional (τ.errorConditional false)) :=
      appended_pushEntry (t := .conditionals) hτ.wellFormed
    rw [hbody] at happ
    unfold Interner.reserveConditional
    rw [hbody]
    exact h.reserved (r := .conditional (σ.errorConditional false)) hσ hτ
      (appended_pushEntry (t := .conditionals) hσ.wellFormed) happ (fun h => by cases h)
  | reserveMapped =>
    refine repeats_of_alike (fun τ hτ h => ⟨h.len, ?_⟩) hrun
    have hbody : τ.errorMapped = σ.errorMapped := by
      unfold errorMapped
      rw [h.wellKnown]
    have happ : Store.Appended τ.store (τ.store.pushMapped τ.errorMapped .empty).2
        (.mapped τ.errorMapped) :=
      appended_pushEntry (t := .mapped) hτ.wellFormed
    rw [hbody] at happ
    unfold Interner.reserveMapped
    rw [hbody]
    exact h.reserved (r := .mapped σ.errorMapped) hσ hτ
      (appended_pushEntry (t := .mapped) hσ.wellFormed) happ (fun h => by cases h)
  | fills fills hstep hfills =>
    simp only [hstep] at hrun ⊢
    exact repeats_fill hσ fills (fun τ h => hfills σ τ h.wellKnown) hrun
  | expectFill fill hstep =>
    simp only [hstep] at hrun ⊢
    exact repeats_expectFill hσ hrun
  | sameRows _ _ _ hother => exact absurd hop hother
  | substitute ty map =>
    obtain ⟨made, hmade, heq⟩ := map_eq_some_iff.mp hrun
    cases heq
    obtain ⟨N, hN⟩ := substitute_alike hσ hfresh hmade
    refine ⟨N, fun τ m hτ hfresh' h hm => ?_⟩
    obtain ⟨τ', hτ', halike⟩ := hN τ m hτ hfresh' h hm
    exact ⟨τ', by simp only [InternerOp.step, hτ']; rfl, halike⟩
  | promote id => exact hop.elim
  | freezeAsBase => exact hop.elim
  | forkDelta => exact hop.elim

section Histories

variable {history : List InternerOp} (hσ : σ.Consed structuralHash False)
  (hfresh : CachesFresh structuralHash False σ)
include hσ hfresh

/-- **A whole history does the same on interners alike.** -/
theorem alike_runHistory {fuel : Nat} {results : List OpResult}
    (hops : ∀ op ∈ history, op.Populates)
    (hrun : runHistory structuralHash fuel history σ = some (results, σ')) :
    ∃ N, ∀ τ m, τ.Consed structuralHash False → CachesFresh structuralHash False τ →
      Alike σ τ → N ≤ m → ∃ τ', runHistory structuralHash m history τ = some (results, τ') ∧
        Alike σ' τ' := by
  induction history generalizing σ results with
  | nil =>
    cases hrun
    exact ⟨0, fun τ m _ _ h _ => ⟨τ, rfl, h⟩⟩
  | cons op ops ih =>
    obtain ⟨⟨result, σ₁⟩, hstep, hrun⟩ := bind_eq_some_iff.mp hrun
    obtain ⟨⟨rest, σ₂⟩, hrest, heq⟩ := bind_eq_some_iff.mp hrun
    cases heq
    have hσ₁ := hσ.steps (steps_step hσ (fun h => h.elim) hstep)
    have hfresh₁ := cachesFresh_step hfresh hσ (fun h => h.elim) hstep
    obtain ⟨N, hN⟩ := alike_step hσ hfresh (hops op (by simp)) hstep
    obtain ⟨M, hM⟩ := ih hσ₁ hfresh₁ (fun op hop => hops op (List.mem_cons_of_mem _ hop)) hrest
    refine ⟨max N M, fun τ m hτ hfresh' h hm => ?_⟩
    obtain ⟨τ₁, hτ₁, h₁⟩ := hN τ m hτ hfresh' h (le_trans (le_max_left _ _) hm)
    have hconsed := hτ.steps (steps_step hτ (fun h => h.elim) hτ₁)
    have hfresh'₁ := cachesFresh_step hfresh' hτ (fun h => h.elim) hτ₁
    obtain ⟨τ₂, hτ₂, h₂⟩ := hM τ₁ m hconsed hfresh'₁ h₁ (le_trans (le_max_right _ _) hm)
    exact ⟨τ₂, by simp only [runHistory, hτ₁, hτ₂, bind_eq_bind, bind_some], h₂⟩

/-- Two runs of a history from interners alike, with any fuel, return the same. -/
theorem runHistory_agree {fuel fuel' : Nat} {results results' : List OpResult} {τ' : Interner}
    (hτ : τ.Consed structuralHash False) (hfresh' : CachesFresh structuralHash False τ)
    (h : Alike σ τ) (hops : ∀ op ∈ history, op.Populates)
    (hrun : runHistory structuralHash fuel history σ = some (results, σ'))
    (hrun' : runHistory structuralHash fuel' history τ = some (results', τ')) :
    results' = results ∧ Alike σ' τ' := by
  obtain ⟨N, hN⟩ := alike_runHistory hσ hfresh hops hrun
  obtain ⟨M, hM⟩ := alike_runHistory hτ hfresh' hops hrun'
  -- with enough fuel for both, one run from `τ` is like either
  obtain ⟨τ₁, hτ₁, halike₁⟩ := hN τ (max N M) hτ hfresh' h (le_max_left _ _)
  obtain ⟨τ₂, hτ₂, halike₂⟩ := hM τ (max N M) hτ hfresh' (.refl τ) (le_max_right _ _)
  rw [hτ₁] at hτ₂
  cases hτ₂
  exact ⟨rfl, halike₁.trans halike₂.symm⟩

end Histories

/-! ## §5 Isolation -/

end Interner

/-- The arena over other contents of its shared layers. -/
def Store.withLayers (s : Store) (layers : Store.Layers) : Store :=
  { s with
    sealedTypeParamIds := layers.typeParamIds
    tagColumn := { s.tagColumn with base := layers.tags, sealed := layers.sealed }
    flagsColumn := { s.flagsColumn with base := layers.flags }
    payloadColumn := { s.payloadColumn with base := layers.payloads }
    tables := fun t => { s.tables t with base := layers.tables t }
    typeParamNames := { s.typeParamNames with base := layers.names }
    declaredRecipes := { s.declaredRecipes with base := layers.recipes }
    typeParamConstraints := { s.typeParamConstraints with base := layers.constraints }
    frozenTypeParams := { s.frozenTypeParams with base := layers.frozen } }

namespace Interner

variable {σ σ' τ : Interner}

/-- What an interner becomes when the layers it shares hold `layers`. -/
def withLayers (σ : Interner) (layers : Layers) : Interner :=
  { σ with
    store := σ.store.withLayers layers.store
    dedupBase := layers.dedup
    declaredRecipeBase := layers.recipes
    reservedTypesBase := layers.reserved }

theorem withLayers_eq {layers : Layers} (h : layers = σ.layers) : σ.withLayers layers = σ := by
  rw [h]
  rfl

theorem layers_runHistory {fuel : Nat} {history : List InternerOp} {results : List OpResult}
    (hσ : σ.Consed structuralHash False) (hsealed : σ.store.tagColumn.sealed = true)
    (hrun : runHistory structuralHash fuel history σ = some (results, σ')) :
    σ'.layers = σ.layers :=
  (steps_runHistory hσ (fun _ _ => False.elim) hrun).layers hsealed

/-- **Freezing and forking is transparent, and forks are isolated.**  An open interner without
    pending reservations can be sealed and forked.  A history of interning, reservation,
    filling and substitution returns on the fork exactly when it returns on the interner
    itself, with the same results and the same visible state.  Whatever runs on one fork
    leaves the layers it shares as they are, for the base and for every sibling. -/
theorem fork_transparent (hreach : σ.Reachable structuralHash)
    (hopen : σ.store.tagColumn.sealed = false) (hpending : σ.hasPendingReservation = false) :
    ∃ base fork, σ.freezeAsBase = (.ok (), base) ∧ base.forkDelta = .ok fork ∧
      (∀ history, (∀ op ∈ history, InternerOp.Populates op) →
        ((∃ fuel out, runHistory structuralHash fuel history σ = some out) ↔
          ∃ fuel out, runHistory structuralHash fuel history fork = some out) ∧
        ∀ fuel fuel' results results' σ' τ,
          runHistory structuralHash fuel history σ = some (results, σ') →
          runHistory structuralHash fuel' history fork = some (results', τ) →
          results' = results ∧ Alike σ' τ) ∧
      ∀ fuel history results τ, runHistory structuralHash fuel history fork = some (results, τ) →
        base.withLayers τ.layers = base ∧
        ∀ fuel' history' results' sibling,
          runHistory structuralHash fuel' history' fork = some (results', sibling) →
          sibling.withLayers τ.layers = sibling := by
  have hσ := hreach.consed
  have hfresh := hreach.cachesFresh
  obtain ⟨base, fork, hbase, hfork, _, halike, hsealed, hsealed', hlayers⟩ :=
    forks_alike hσ hreach.bare hopen hpending
  have hσb : base.Consed structuralHash False := by
    have hsteps := steps_freezeAsBase hσ
    rw [hbase] at hsteps
    exact hσ.steps hsteps
  have hfreshb : CachesFresh structuralHash False base := by
    have hfrozen := hfresh.freezeAsBase hσ
    rw [hbase] at hfrozen
    exact hfrozen
  have hτ := hσb.steps (steps_forkDelta hσb hfork)
  have hfresh' := hfreshb.forkDelta hσb hfork
  refine ⟨base, fork, hbase, hfork, fun history hops => ⟨⟨?_, ?_⟩, ?_⟩, ?_⟩
  · rintro ⟨fuel, ⟨results, σ'⟩, hrun⟩
    obtain ⟨N, hN⟩ := alike_runHistory hσ hfresh hops hrun
    obtain ⟨τ, hrun', _⟩ := hN fork N hτ hfresh' halike le_rfl
    exact ⟨N, _, hrun'⟩
  · rintro ⟨fuel, ⟨results, τ⟩, hrun⟩
    obtain ⟨N, hN⟩ := alike_runHistory hτ hfresh' hops hrun
    obtain ⟨σ', hrun', _⟩ := hN σ N hσ hfresh halike.symm le_rfl
    exact ⟨N, _, hrun'⟩
  · intro fuel fuel' results results' σ' τ hrun hrun'
    exact runHistory_agree hσ hfresh hτ hfresh' halike hops hrun hrun'
  · intro fuel history results τ hrun
    have hshared := layers_runHistory hτ hsealed' hrun
    refine ⟨withLayers_eq (hshared.trans hlayers), ?_⟩
    intro fuel' history' results' sibling hrun'
    exact withLayers_eq (hshared.trans (layers_runHistory hτ hsealed' hrun').symm)

theorem fork_transparent_array :
    ∃ σ base fork : Interner, σ.Reachable (fun _ => 0) ∧ σ.freezeAsBase = (.ok (), base) ∧
      base.forkDelta = .ok fork ∧
      ∃ fuel out, runHistory (fun _ => 0) fuel
        [.internArray 8, .reserveObject, .fillObject 21 {}, .internArray 21] fork = some out := by
  obtain ⟨σ, hrun, hopen, hpending, hreturns⟩ : ∃ σ : Interner,
      runHistory (fun _ => 0) 1 [.internArray 7] (withIntrinsics (fun _ => 0))
        = some ([.id 19], σ) ∧ σ.store.tagColumn.sealed = false ∧
      σ.hasPendingReservation = false ∧ ∃ fuel out, runHistory (fun _ => 0) fuel
        [.internArray 8, .reserveObject, .fillObject 21 {}, .internArray 21] σ = some out :=
    ⟨_, rfl, rfl, by decide +kernel, 1, _, rfl⟩
  have hreach : σ.Reachable (fun _ => 0) := ⟨1, _, _, hrun⟩
  obtain ⟨base, fork, hbase, hfork, hsame, _⟩ := fork_transparent hreach hopen hpending
  exact ⟨σ, base, fork, hreach, hbase, hfork,
    (hsame _ (by simp [InternerOp.Populates])).1.mp hreturns⟩

end Interner

end Typokat.Types
