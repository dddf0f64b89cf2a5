import Typokat.Types.Simulation

/-!
# The Derived Caches Are Always Fresh

Every operation of the interner keeps the derived caches fresh.  An operation that only
adds rows keeps the identity of the graph and falsifies no entry; one that replaces a body
or a constraint moves the identity, so that the suffix is not read again; sealing turns
suffix entries into base entries, which speak of rows that never change again.

## Main Results

- `Interner.cachesFresh_step` : one operation
- `Interner.Reachable.cachesFresh` : every history
- `Interner.reachable_caches_fresh` : every cached value is the one computed from scratch
-/

namespace Typokat.Types

open Option

variable {structuralHash : StructuralKey → Nat} {regular : Prop}

namespace Interner

variable {σ τ : Interner}

/-! ## §1 Steps that keep the caches -/

section Advance

variable (h : CachesFresh structuralHash regular σ) (hσ : σ.Consed structuralHash regular)
include h hσ

/-- Rows are only added, or the identity of the graph moves. -/
theorem CachesFresh.advance (hsteps : Steps structuralHash regular σ τ) (hcaches : SameCaches σ τ)
    (hidentity : (τ.store.semanticGraphIdentity = σ.store.semanticGraphIdentity ∧ Extends σ τ) ∨
      σ.store.semanticGraphIdentity < τ.store.semanticGraphIdentity) :
    CachesFresh structuralHash regular τ := by
  rcases hidentity with ⟨heq, hext⟩ | hlt
  · exact h.extend hσ ⟨hsteps, hext, heq⟩ hcaches
  · exact
      { free := by
          rw [hcaches.freeParams]
          exact FreshCache.mark hσ h.free hsteps hlt
        modes := by
          rw [hcaches.modes]
          exact FreshCache.mark hσ h.modes hsteps hlt
        clean := by
          rw [hcaches.clean]
          exact FreshCache.mark hσ h.clean hsteps hlt }

theorem CachesFresh.internSpec {key : StructuralKey} {result : TypeId × Interner}
    (hspec : InternSpec structuralHash regular σ key result) :
    CachesFresh structuralHash regular result.2 :=
  h.extend hσ (.of_internSpec hσ hspec) (.of_internSpec hspec)

theorem CachesFresh.interning {A : Type} {f : Interner → Option (A × Interner)}
    (hf : Interning structuralHash regular f) {result : A × Interner} (hrun : f σ = some result) :
    CachesFresh structuralHash regular result.2 :=
  h.extend hσ (hf σ hσ result hrun).grows (hf σ hσ result hrun).caches

end Advance

/-! ### Reservations -/

/-- A reservation is a new row; nothing structural changes. -/
theorem extends_reserved (hσ : σ.Consed structuralHash regular) {store : Store} {r : Row}
    {kind : ReservedTypeKind} (happ : Store.Appended σ.store store r) :
    Extends σ { σ with
      store
      reservedTypes := σ.reservedTypes.insert σ.store.len ⟨kind, .pending⟩ } where
  row := by
    intro id r' hr'
    exact (happ.row_old id (hσ.wellFormed.lt_of_row hr').ne).trans hr'
  structural := by
    rintro id r' ⟨hr', hfree⟩
    have hne : id ≠ σ.store.len := (hσ.wellFormed.lt_of_row hr').ne
    refine ⟨(happ.row_old id hne).trans hr', ?_⟩
    simpa [reservedType, Finmap.lookup_insert_of_ne _ hne] using hfree
  recipe := by
    intro id recipe hrecipe
    show store.declaredRecipe id = some recipe
    rw [Store.declaredRecipe, happ.recipes_eq]
    exact hrecipe
  wellKnown := rfl

section Reservations

variable (h : CachesFresh structuralHash regular σ) (hσ : σ.Consed structuralHash regular)
include h hσ

theorem CachesFresh.reserved {store : Store} {r : Row} {kind : ReservedTypeKind}
    (happ : Store.Appended σ.store store r) (hsteps : Steps structuralHash regular σ { σ with
      store
      reservedTypes := σ.reservedTypes.insert σ.store.len ⟨kind, .pending⟩ }) :
    CachesFresh structuralHash regular { σ with
      store
      reservedTypes := σ.reservedTypes.insert σ.store.len ⟨kind, .pending⟩ } :=
  h.advance hσ hsteps ⟨rfl, rfl, rfl⟩ (.inl ⟨happ.identity_eq, extends_reserved hσ happ⟩)

theorem CachesFresh.fillReservedTypeBatch {fills : List ReservedTypeFill}
    {result : Except ReservedTypeFillError Unit × Interner}
    (hrun : σ.fillReservedTypeBatch fills = some result) :
    CachesFresh structuralHash regular result.2 := by
  rcases fillReservedTypeBatch_cases hσ fills with
    ⟨error, herror⟩ | ⟨σ', hok, hfilled, hidentity⟩
  · rw [herror] at hrun
    cases hrun
    exact h
  · rw [hok] at hrun
    cases hrun
    cases fills with
    | cons fill fills =>
      refine h.advance hσ hfilled.steps hfilled.frame.caches (.inr ?_)
      rw [hidentity]
      exact Nat.lt_succ_self _
    | nil =>
      -- an empty batch is no mutation
      have hrow : ∀ id, σ'.store.row id = σ.store.row id := fun id => hfilled.row_old id (by simp)
      have hreserved : ∀ id, σ'.reservedType id = σ.reservedType id :=
        fun id => hfilled.reserved_old id (by simp)
      refine h.advance hσ hfilled.steps hfilled.frame.caches (.inl ⟨hidentity, ?_⟩)
      refine ⟨fun hr => (hrow _).trans hr, fun hr => ?_, fun hr => ?_, hfilled.frame.wellKnown⟩
      · exact ⟨(hrow _).trans hr.1, (hreserved _).trans hr.2⟩
      · rw [Store.declaredRecipe, hfilled.frame.recipes]
        exact hr

theorem CachesFresh.expectFill {fill : ReservedTypeFill} (hrun : σ.expectFill fill = some τ) :
    CachesFresh structuralHash regular τ := by
  obtain ⟨⟨outcome, filled⟩, hfill, hrun⟩ := bind_eq_some_iff.mp hrun
  cases outcome with
  | error error => cases hrun
  | ok u =>
    cases hrun
    exact (h.fillReservedTypeBatch hσ hfill :)

/-- Promotion only moves a row from the reservations to the buckets. -/
theorem CachesFresh.promote (id : TypeId) :
    CachesFresh structuralHash regular
      (σ.promoteCallerCertifiedAcyclicReservedObject structuralHash id).2 := by
  have hsteps := steps_promote hσ id
  rcases promote_cases hσ id with ⟨result, heq⟩ | ⟨object, hlocal, _, _, heq⟩
  · rw [heq]
    exact h
  · rw [heq] at hsteps ⊢
    refine h.advance hσ hsteps ⟨rfl, rfl, rfl⟩ (.inl ⟨rfl, fun hr => hr, ?_, fun hr => hr, rfl⟩)
    rintro other r ⟨hr, hfree⟩
    refine ⟨hr, ?_⟩
    obtain ⟨hbase, hother⟩ := reservedType_eq_none_iff.mp hfree
    refine reservedType_eq_none_iff.mpr ⟨hbase, ?_⟩
    show (σ.reservedTypes.erase id).lookup other = none
    by_cases heq : other = id
    · rw [heq, Finmap.lookup_erase]
    · rw [Finmap.lookup_erase_ne heq, hother]

end Reservations

/-! ### Side columns -/

theorem SameRows.extends {store : Store} (h : SameRows σ.store store) :
    Extends σ { σ with store } where
  row := fun hr => (h.row_eq _).trans hr
  structural := fun hr => ⟨(h.row_eq _).trans hr.1, hr.2⟩
  recipe := by
    intro id recipe hrecipe
    show store.declaredRecipe id = some recipe
    rw [Store.declaredRecipe, h.recipes_eq]
    exact hrecipe
  wellKnown := rfl

section Rows

variable (h : CachesFresh structuralHash regular σ) (hσ : σ.Consed structuralHash regular)
include h hσ

theorem CachesFresh.sameRows {store : Store} (hrows : SameRows σ.store store) :
    CachesFresh structuralHash regular { σ with store } := by
  refine h.advance hσ hrows.steps ⟨rfl, rfl, rfl⟩ ?_
  rcases hrows.identity_le.eq_or_lt with heq | hlt
  · exact .inl ⟨heq.symm, hrows.extends⟩
  · exact .inr hlt

theorem CachesFresh.computeApplicationSummaries {root : TypeId}
    {result : ApplicationSummary × Interner}
    (hrun : σ.computeApplicationSummaries root = some result) :
    CachesFresh structuralHash regular result.2 :=
  h.of_summaries hσ (sameCore_computeApplicationSummaries hrun)
    (h.toSummariesFresh.compute hσ hrun).2.2 (cleanResults_computeApplicationSummaries hrun)

theorem CachesFresh.deriveDeclaredRecipeFreeParams {node : DeclaredRecipeNode}
    {result : List TypeParamId × Interner}
    (hrun : σ.deriveDeclaredRecipeFreeParams node = some result) :
    CachesFresh structuralHash regular result.2 := by
  have hderived : ∀ {ty : TypeId} {derived : List TypeParamId × Interner},
      σ.derivedFreeParams ty = some derived → CachesFresh structuralHash regular derived.2 := by
    intro ty derived hderived
    obtain ⟨computed, hcompute, rfl⟩ := map_eq_some_iff.mp hderived
    exact h.computeApplicationSummaries hσ hcompute
  unfold Interner.deriveDeclaredRecipeFreeParams at hrun
  cases node with
  | type ty =>
    obtain ⟨derived, hrun', hrun⟩ := bind_eq_some_iff.mp hrun
    cases hrun
    exact (hderived hrun' :)
  | array child =>
    cases hrun
    exact h
  | readonly child =>
    cases hrun
    exact h
  | tuple elements rest =>
    dsimp only at hrun
    split at hrun
    · cases hrun
      exact h
    · cases hrun
  | application template parameters arguments =>
    dsimp only at hrun
    split at hrun
    · obtain ⟨derived, hrun', hrun⟩ := bind_eq_some_iff.mp hrun
      cases hrun
      exact (hderived hrun' :)
    · cases hrun

theorem CachesFresh.internDeclaredRecipe {node : DeclaredRecipeNode}
    {result : DeclaredRecipeId × Interner} (hrun : σ.internDeclaredRecipe node = some result) :
    CachesFresh structuralHash regular result.2 := by
  simp only [Interner.internDeclaredRecipe, bind_eq_bind, bind_eq_some_iff] at hrun
  obtain ⟨derived, hderived, hrun⟩ := hrun
  have hcore := sameCore_deriveDeclaredRecipeFreeParams hderived
  have hfresh := h.deriveDeclaredRecipeFreeParams hσ hderived
  have hσ' := hσ.step (hcore.step hσ)
  split at hrun
  · cases hrun
    exact hfresh
  · cases hrun
    refine hfresh.advance hσ' (.single (pushDeclaredRecipe_step hσ' ?_)) ⟨rfl, rfl, rfl⟩
      (.inl ⟨rfl, id, id, fun hrecipe => ?_, rfl⟩)
    · exact pairwise_deriveDeclaredRecipeFreeParams hderived
    · exact (LayeredVec.get_pushLocal_of_lt _ _ (by
        rw [← LayeredVec.get_isSome_iff]
        exact isSome_iff_exists.mpr ⟨_, hrecipe⟩)).trans hrecipe

end Rows

/-! ### Sealing and forking -/

theorem CachesFresh.alignCaches (h : CachesFresh structuralHash regular σ)
    (hσ : σ.Consed structuralHash regular) : CachesFresh structuralHash regular σ.alignCaches where
  free := h.free.alignWith.sameCore hσ (sameCore_alignCaches σ)
  modes := h.modes.alignWith.sameCore monotonic_exactMode hσ (sameCore_alignCaches σ)
  clean := h.clean.alignWith.sameCore monotonic_cleanEntry hσ (sameCore_alignCaches σ)

theorem Extends.of_resealed {τ : Interner} (hresealed : Store.Resealed σ.store τ.store)
    (hreserved : ∀ id, τ.reservedType id = σ.reservedType id) (hwk : τ.wellKnown = σ.wellKnown) :
    Extends σ τ where
  row := fun hr => (hresealed.row_eq _).trans hr
  structural := fun hr => ⟨(hresealed.row_eq _).trans hr.1, (hreserved _).trans hr.2⟩
  recipe := fun hr => (hresealed.recipes_eq _).trans hr
  wellKnown := hwk

/-- Sealing a fresh aligned cache, whatever its entries say. -/
theorem freshCache_freezeAsBase {K V : Type} [DecidableEq K] {P : K → V → Interner → Prop}
    {identity : Nat} {base suffix : FxHashMap K V} (hσ : σ.Consed structuralHash regular)
    (h : FreshCache structuralHash regular P σ identity base suffix)
    (hidentity : identity = σ.store.semanticGraphIdentity)
    (hτ : τ.store.semanticGraphIdentity = σ.store.semanticGraphIdentity)
    (hsteps : Steps structuralHash regular σ τ) (hext : Extends σ τ)
    (hlen : σ.store.len ≤ τ.store.baseLen) :
    FreshCache structuralHash regular P τ identity (suffix ∪ base) ∅ := by
  subst hidentity
  rw [← hτ]
  exact FreshCache.sealed hσ h hsteps hext hlen

/-- **Sealing** makes every current entry a base entry. -/
theorem CachesFresh.freezeAsBase (h : CachesFresh structuralHash regular σ)
    (hσ : σ.Consed structuralHash regular) :
    CachesFresh structuralHash regular σ.freezeAsBase.2 := by
  have hsteps := steps_freezeAsBase hσ
  rcases freezeAsBase_cases σ with
    ⟨error, heq⟩ | ⟨error, heq⟩ | ⟨_, hreserved, _, _, store, hstore, heq⟩
  · rw [heq]
    exact h
  · rw [heq]
    exact h.alignCaches hσ
  · obtain ⟨hresealed, hidentity, _⟩ := Store.resealed_freezeAsBase hσ.wellFormed hstore
    rw [heq] at hsteps ⊢
    have hext : Extends σ _ :=
      Extends.of_resealed (τ := (σ.freezeAsBase).2) (by rw [heq]; exact hresealed)
        (fun id => by rw [heq]; simp [reservedType, hreserved]) (by rw [heq]; rfl)
    rw [heq] at hext
    have hlen : σ.store.len ≤ store.baseLen := hresealed.baseLen_eq.ge
    exact
      { free := freshCache_freezeAsBase hσ h.free.alignWith
          (FreeParamSummaryCache.graphIdentity_alignWith _ _) hidentity hsteps hext hlen
        modes := freshCache_freezeAsBase hσ h.modes.alignWith (graphIdentity_alignWith _ _)
          hidentity hsteps hext hlen
        clean := freshCache_freezeAsBase hσ h.clean.alignWith (graphIdentity_alignWith _ _)
          hidentity hsteps hext hlen }

/-- **Forking** keeps the base entries only. -/
theorem CachesFresh.forkDelta (h : CachesFresh structuralHash regular σ)
    (hσ : σ.Consed structuralHash regular) (hrun : σ.forkDelta = .ok τ) :
    CachesFresh structuralHash regular τ := by
  have hsteps : Steps structuralHash regular σ τ := steps_forkDelta hσ hrun
  obtain ⟨_, _, _, store, _, rfl⟩ := of_forkDelta hrun
  exact
    { free := FreshCache.forked hσ h.free hsteps
      modes := FreshCache.forked hσ h.modes hsteps
      clean := FreshCache.forked hσ h.clean hsteps }

/-! ## §2 Operations and histories -/

/-- **Every operation keeps the caches fresh.** -/
theorem cachesFresh_step (h : CachesFresh structuralHash regular σ)
    (hσ : σ.Consed structuralHash regular) {fuel : Nat} {op : InternerOp}
    (hop : regular → op.Regular) {result : OpResult}
    (hrun : op.step structuralHash fuel σ = some (result, τ)) :
    CachesFresh structuralHash regular τ := by
  cases opKind structuralHash regular op with
  | interns hstep hspec =>
    rw [hstep] at hrun
    cases hrun
    exact h.internSpec hσ (hspec σ hσ)
  | literal value => cases hrun; exact h.internSpec hσ (internSpec_internLiteral hσ hop)
  | typeParam id name => cases hrun; exact h.internSpec hσ (internSpec_internTypeParam hσ id name)
  | interning hstep hf =>
    rw [hstep] at hrun
    obtain ⟨made, hmade, hrun⟩ := map_eq_some_iff.mp hrun
    cases hrun
    exact h.interning hσ hf hmade
  | declaredRecipe node =>
    obtain ⟨made, hmade, hrun⟩ := map_eq_some_iff.mp hrun
    cases hrun
    exact h.internDeclaredRecipe hσ hmade
  | reserveObject =>
    cases hrun
    exact h.reserved hσ (Store.appended_pushEntry hσ.wellFormed) (steps_reserveObject hσ)
  | reserveConditional =>
    cases hrun
    exact h.reserved hσ (Store.appended_pushEntry hσ.wellFormed) (steps_reserveConditional hσ)
  | reserveMapped =>
    cases hrun
    exact h.reserved hσ (Store.appended_pushEntry hσ.wellFormed) (steps_reserveMapped hσ)
  | fills fills hstep =>
    rw [hstep] at hrun
    obtain ⟨filled, hfilled, hrun⟩ := map_eq_some_iff.mp hrun
    cases hrun
    exact h.fillReservedTypeBatch hσ hfilled
  | expectFill fill hstep =>
    rw [hstep] at hrun
    obtain ⟨filled, hfilled, hrun⟩ := map_eq_some_iff.mp hrun
    cases hrun
    exact h.expectFill hσ hfilled
  | promote id => cases hrun; exact h.promote hσ id
  | sameRows f hstep hrows =>
    rw [hstep] at hrun
    cases hrun
    exact h.sameRows hσ (hrows σ hσ.wellFormed)
  | substitute ty map =>
    obtain ⟨made, hmade, hrun⟩ := map_eq_some_iff.mp hrun
    cases hrun
    obtain ⟨⟨outcome, σ'⟩, houtcome, rfl⟩ := map_eq_some_iff.mp hmade
    -- the walk refills the caches as it goes
    obtain ⟨_, _, _, _, _, _, _, hfresh, _⟩ :=
      simulated_substituteWith (simulates_apply fuel) hσ h houtcome
    exact hfresh
  | freezeAsBase => cases hrun; exact h.freezeAsBase hσ
  | forkDelta =>
    rw [InternerOp.step] at hrun
    split at hrun
    · rename_i fork hfork
      cases hrun
      exact h.forkDelta hσ hfork
    · cases hrun
      exact h

theorem cachesFresh_runHistory {fuel : Nat} {history : List InternerOp} {results : List OpResult}
    (h : CachesFresh structuralHash regular σ) (hσ : σ.Consed structuralHash regular)
    (hops : ∀ op ∈ history, regular → op.Regular)
    (hrun : runHistory structuralHash fuel history σ = some (results, τ)) :
    CachesFresh structuralHash regular τ := by
  induction history generalizing σ results with
  | nil =>
    cases hrun
    exact h
  | cons op ops ih =>
    simp only [runHistory, bind_eq_bind, bind_eq_some_iff, some.injEq] at hrun
    obtain ⟨⟨result, σ₁⟩, hstep, ⟨rest, σ₂⟩, hrest, heq⟩ := hrun
    cases heq
    have hop := hops op (by simp)
    exact ih (cachesFresh_step h hσ hop hstep) (hσ.steps (steps_step hσ hop hstep))
      (fun op hmem => hops op (by simp [hmem])) hrest

/-- Caches without entries are fresh. -/
theorem cachesFresh_of_new (hfree : σ.freeParamSummaries = .new σ.store.semanticGraphIdentity)
    (hmodes : σ.applicationKeyModes = .new σ.store.semanticGraphIdentity)
    (hclean : σ.cleanApplicationResults = .new σ.store.semanticGraphIdentity) :
    CachesFresh structuralHash regular σ where
  free := by
    rw [hfree]
    exact FreshCache.reset σ
  modes := by
    rw [hmodes]
    exact FreshCache.reset σ
  clean := by
    rw [hclean]
    exact FreshCache.reset σ

theorem cachesFresh_uncached (σ : Interner) : CachesFresh structuralHash regular σ.uncached :=
  cachesFresh_of_new rfl rfl rfl

theorem caches_internIntrinsics (kinds : List IntrinsicKind) :
    ∀ {σ : Interner} (idOf : IntrinsicKind → TypeId), σ.Consed structuralHash regular →
      SameCaches σ (σ.internIntrinsics structuralHash idOf kinds).2 ∧
        (σ.internIntrinsics structuralHash idOf kinds).2.store.semanticGraphIdentity
          = σ.store.semanticGraphIdentity := by
  induction kinds with
  | nil => exact fun _ _ => ⟨.refl _, rfl⟩
  | cons kind kinds ih =>
    intro σ idOf hσ
    have hspec := internSpec_internIntrinsic hσ kind
    obtain ⟨hcaches, hidentity⟩ := ih (Function.update idOf kind _) (hσ.steps hspec.steps)
    exact ⟨(SameCaches.of_internSpec hspec).trans hcaches,
      hidentity.trans (Grows.of_internSpec hσ hspec).identity⟩

theorem cachesFresh_withIntrinsics :
    CachesFresh structuralHash regular (withIntrinsics structuralHash) := by
  have hempty : Interner.empty.Consed structuralHash False := consed_empty
  obtain ⟨hcaches, hidentity⟩ := caches_internIntrinsics IntrinsicKind.all (fun _ => 0) hempty
  unfold withIntrinsics
  generalize Interner.empty.internIntrinsics structuralHash (fun _ => 0) IntrinsicKind.all = made
    at hcaches hidentity
  obtain ⟨idOf, σ⟩ := made
  dsimp only at hcaches hidentity ⊢
  refine cachesFresh_of_new ?_ ?_ ?_
  · show σ.freeParamSummaries = .new σ.store.semanticGraphIdentity
    rw [hcaches.freeParams, hidentity]
    rfl
  · show σ.applicationKeyModes = .new σ.store.semanticGraphIdentity
    rw [hcaches.modes, hidentity]
    rfl
  · show σ.cleanApplicationResults = .new σ.store.semanticGraphIdentity
    rw [hcaches.clean, hidentity]
    rfl

/-- **The caches of every reachable interner are fresh.** -/
theorem Reachable.cachesFresh (h : σ.Reachable structuralHash) :
    CachesFresh structuralHash False σ := by
  obtain ⟨fuel, history, results, hrun⟩ := h
  exact cachesFresh_runHistory cachesFresh_withIntrinsics consed_withIntrinsics
    (fun _ _ => False.elim) hrun

/-! ## §3 Values from scratch -/

/-- The interner without its caches has the same rows. -/
theorem sameCore_uncached (σ : Interner) : SameCore σ σ.uncached := rfl

section Uncached

variable (hσ : σ.Consed structuralHash regular) {ty : TypeId}
include hσ

/-- A summary that is exact is the one computed from scratch. -/
theorem computeApplicationSummaries_uncached (hty : σ.store.Grounded ty) : ∃ summary σ',
      σ.uncached.computeApplicationSummaries ty = some (summary, σ') ∧
      σ.store.ExactFree ty summary.freeParams ∧ σ.store.ExactMode ty summary.keyMode := by
  obtain ⟨⟨summary, σ'⟩, hrun⟩ :=
    computeApplicationSummaries_isSome (cachedExact_uncached σ) hσ.wellFormed hty
  obtain ⟨hfree, hmode, _⟩ := computeApplicationSummaries_exact (cachedExact_uncached σ) hrun
  exact ⟨summary, σ', hrun, hfree, hmode⟩

/-- What a walk finds, a substitution without caches returns, and nothing else. -/
theorem substitute_uncached_of_walks {map : FxHashMap TypeParamId TypeId} {n : Nat} {visit : Visit}
    (hty : σ.store.Grounded ty) (hwalk : Walks structuralHash σ n map ∅ ∅ ty visit) :
    (∃ fuel τ, substitute structuralHash fuel σ.uncached ty map = some (visit.result, τ)) ∧
      ∀ fuel result τ, substitute structuralHash fuel σ.uncached ty map = some (result, τ) →
        result = visit.result := by
  have hcore := sameCore_uncached σ
  have hσ' := (Grows.of_sameCore hσ hcore).consed hσ
  have hfresh : CachesFresh structuralHash regular σ.uncached := cachesFresh_uncached σ
  have hrun := walk_of_walks hσ' (hty.extends hcore.extends)
    (hwalk.extends hσ hσ' hcore.extends hty)
  have hunique : ∀ fuel result τ,
      substitute structuralHash fuel σ.uncached ty map = some (result, τ) →
        result = visit.result := by
    intro fuel result τ hsub
    obtain ⟨⟨outcome, σ'⟩, houtcome, heq⟩ := map_eq_some_iff.mp hsub
    cases heq
    obtain ⟨m, visit', ρ, hrun', hresult, _⟩ :=
      simulated_substituteWith (simulates_apply fuel) hσ' hfresh houtcome
    rw [← hresult]
    exact congrArg (fun found => found.1.result) (walk_unique hrun' hrun)
  obtain ⟨⟨outcome, τ⟩, hout⟩ := returns_substituteWith (returns_apply n) hσ' hfresh hrun
  have hsub : substitute structuralHash n σ.uncached ty map = some (outcome.result, τ) := by
    rw [substitute, substituteWithOutcome, hout]
    rfl
  refine ⟨⟨n, τ, ?_⟩, hunique⟩
  rw [hsub, hunique n _ τ hsub]

/-- The walk that a durable result stands for. -/
theorem walks_of_cleanApplicationResult (hfresh : CachesFresh structuralHash regular σ)
    {map : FxHashMap TypeParamId TypeId} {key : CleanApplicationKey} {sub : Substitution}
    {result : TypeId}
    (hkey : Substitution.cleanApplicationKey { map } σ ty = some (some key, sub, τ))
    (hget : (σ.cleanApplicationResult key).1 = some result) :
    σ.store.Grounded ty ∧ ∃ n, Walks structuralHash σ n map ∅ ∅ ty (.clean result) := by
  obtain ⟨_, _, hfor⟩ := runSound_cleanApplicationKey hσ hfresh hkey
  have hcore : SameCore σ τ := (sameCore_cleanApplicationKey hkey :)
  have hτ := (Grows.of_sameCore hσ hcore).consed hσ
  exact walks_of_lookUp hσ hfresh (hfor.extends hτ hcore.symm.extends) hget

end Uncached

/-- **The durable substitution caches are always fresh.**  In every reachable state a cached
    summary is the one computed from scratch, and a durable result under the key of a root and
    a map is what a substitution without caches returns for them. -/
theorem reachable_caches_fresh (h : σ.Reachable structuralHash) :
    (∀ ty freeParams, (σ.freeParamSummary ty).1 = some freeParams →
      ∃ mode σ', σ.uncached.computeApplicationSummaries ty = some (⟨freeParams, mode⟩, σ')) ∧
    (∀ ty mode, (σ.applicationKeyMode ty).1 = some mode →
      ∃ freeParams σ',
        σ.uncached.computeApplicationSummaries ty = some (⟨freeParams, mode⟩, σ')) ∧
    ∀ ty map key sub σ' result,
      Substitution.cleanApplicationKey { map } σ ty = some (some key, sub, σ') →
      (σ.cleanApplicationResult key).1 = some result →
      (∃ fuel τ, substitute structuralHash fuel σ.uncached ty map = some (result, τ)) ∧
      ∀ fuel result' τ,
        substitute structuralHash fuel σ.uncached ty map = some (result', τ) → result' = result := by
  have hσ := h.consed
  have hfresh := h.cachesFresh
  refine ⟨fun ty freeParams hget => ?_, fun ty mode hget => ?_,
    fun ty map key sub σ' result hkey hget => ?_⟩
  · have hexact := hfresh.freeParamSummary hσ hget
    obtain ⟨summary, σ', hrun, hfree, _⟩ := computeApplicationSummaries_uncached hσ hexact.grounded
    exact ⟨summary.keyMode, σ', by rw [hexact.unique hfree, hrun]⟩
  · have hexact := hfresh.applicationKeyMode hσ hget
    obtain ⟨summary, σ', hrun, _, hmode⟩ := computeApplicationSummaries_uncached hσ hexact.grounded
    exact ⟨summary.freeParams, σ', by rw [hexact.unique hmode, hrun]⟩
  · obtain ⟨hground, n, hwalk⟩ := walks_of_cleanApplicationResult hσ hfresh hkey hget
    exact substitute_uncached_of_walks hσ hground hwalk

/-- `T[]` with `T := number`: the second request finds the durable result of the first. -/
theorem reachable_caches_fresh_array :
    ∃ σ : Interner, σ.Reachable (fun _ => 0) ∧
      (σ.cleanApplicationResult ⟨20, .relevantOnly, [(0, 8)]⟩).1 = some 21 ∧
      ∃ fuel τ, substitute (fun _ => 0) fuel σ.uncached 20 (Finmap.singleton 0 8)
        = some (21, τ) := by
  obtain ⟨reached, hrun, hget, hkey⟩ := exists_of_run
    (r := runHistory (fun _ => 0) 4 [.internTypeParam 0 "T", .internArray 19,
      .substitute 20 (Finmap.singleton 0 8)] (withIntrinsics (fun _ => 0)))
    (P := fun reached =>
      (reached.2.cleanApplicationResult ⟨20, .relevantOnly, [(0, 8)]⟩).1 = some 21 ∧
      (Substitution.cleanApplicationKey { map := Finmap.singleton 0 8 } reached.2 20).map
        (fun keyed => keyed.1) = some (some ⟨20, .relevantOnly, [(0, 8)]⟩)) (by decide +kernel)
  have hreach : reached.2.Reachable (fun _ => 0) := ⟨4, _, reached.1, hrun⟩
  obtain ⟨⟨key, sub, σ'⟩, hkeyed, rfl⟩ := map_eq_some_iff.mp hkey
  exact ⟨reached.2, hreach, hget,
    ((reachable_caches_fresh hreach).2.2 20 _ _ sub σ' 21 hkeyed hget).1⟩

end Interner

end Typokat.Types
