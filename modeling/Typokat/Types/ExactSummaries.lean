import Typokat.Types.Freshness

/-!
# Free-Parameter Summaries on Paths

What `derived_free_params` answers, read on paths of the type graph: a parameter is listed
when some path from the root ends in an occurrence of it and no function row on the way
declares it.  The answers are the same whatever the summary caches hold, because every
state of them that operations and earlier queries can produce is fresh.

## Main Results

- `Store.freeIn_iff_path` : freedom is a path that no binder cuts
- `Interner.Queried.fresh` : operations and queries in any order keep the caches fresh
- `Interner.derivedFreeParams_exact` : what is returned and what is published
-/

namespace Typokat.Types

open Option

/-! ## §1 Paths that no binder cuts -/

namespace Store

/-- The row of `parent` is a function that declares `p` among its own `type_params`. -/
def BindsParam (s : Store) (parent : TypeId) (p : TypeParamId) : Prop :=
  ∃ body : FunctionType, s.row parent = some (.function body) ∧
    ∃ param ∈ body.typeParams, param.id = p

/-- An apply-child edge whose parent does not bind `p`. -/
def OpenEdge (s : Store) (p : TypeParamId) (parent child : TypeId) : Prop :=
  s.Edge parent child ∧ ¬ s.BindsParam parent p

/-- The row is a type parameter `p`, or a declared row whose recipe has `p` free and whose
    mapper does not map it. -/
def OccursAt (s : Store) (node : TypeId) (p : TypeParamId) : Prop :=
  (∃ param, s.row node = some (.typeParam param) ∧ param.id = p) ∨
  ∃ body recipe, s.row node = some (.declared body) ∧
    s.declaredRecipe body.recipe = some recipe ∧ p ∈ recipe.freeParams ∧
    ∀ entry ∈ body.mapper, entry.1 ≠ p

/-- An open path from `ty` to an occurrence of `p`. -/
def FreePath (s : Store) (ty : TypeId) (p : TypeParamId) : Prop :=
  ∃ node, Relation.ReflTransGen (s.OpenEdge p) ty node ∧ s.OccursAt node p

/-- A conditional that distributes and is not poisoned, or a homomorphic mapped row. -/
def Guarded (s : Store) (node : TypeId) : Prop :=
  (∃ body, s.row node = some (.conditional body) ∧ body.distributive = true ∧
    body.poisoned = false) ∨
  ∃ body, s.row node = some (.mapped body) ∧ body.homomorphic = true

variable {s : Store} {ty : TypeId} {p : TypeParamId}

theorem mem_nodeBinders : p ∈ s.nodeBinders ty ↔ s.BindsParam ty p := by
  unfold nodeBinders BindsParam
  cases hrow : s.row ty with
  | none => simp
  | some r =>
    -- only a function row has binders
    cases r <;> simp [Row.binders]

theorem occursAt_iff : s.OccursAt ty p ↔ ∃ r, s.row ty = some r ∧ p ∈ s.ownParameters r := by
  unfold OccursAt
  cases hrow : s.row ty with
  | none => simp
  | some r =>
    cases r with
    | typeParam param => simp [ownParameters, eq_comm]
    | declared body =>
      cases hrecipe : s.declaredRecipe body.recipe with
      | none => simp [ownParameters, hrecipe]
      | some recipe =>
        simp [ownParameters, hrecipe]
        intro _
        -- the mapper does not map `p`, said of entries and said of keys
        constructor
        · exact fun hmapper target hentry => hmapper p target hentry rfl
        · rintro hmapper _ target hentry rfl
          exact hmapper target hentry
    | _ => simp [ownParameters]

/-- **Freedom is an open path** to an occurrence. -/
theorem freeIn_iff_path : s.FreeIn ty p ↔ s.FreePath ty p := by
  constructor
  · intro h
    induction h with
    | own hr hp => exact ⟨_, .refl, occursAt_iff.mpr ⟨_, hr, hp⟩⟩
    | child hedge _ hbinders ih =>
      obtain ⟨node, hpath, hnode⟩ := ih
      -- the edge stays open because the parent does not bind the parameter
      refine ⟨node, .head ⟨hedge, ?_⟩ hpath, hnode⟩
      exact fun hbinds => hbinders (mem_nodeBinders.mpr hbinds)
  · rintro ⟨node, hpath, hnode⟩
    induction hpath using Relation.ReflTransGen.head_induction_on with
    | refl =>
      obtain ⟨r, hr, hp⟩ := occursAt_iff.mp hnode
      exact .own hr hp
    | head hedge _ ih =>
      apply FreeIn.child hedge.1 ih
      exact fun hbinders => hedge.2 (mem_nodeBinders.mp hbinders)

theorem guarded_iff : s.Guarded ty ↔ ∃ r, s.row ty = some r ∧ r.retainsFullMapper = true := by
  unfold Guarded
  cases hrow : s.row ty with
  | none => simp
  | some r => cases r <;> simp [Row.retainsFullMapper]

theorem retains_iff_guarded : s.Retains ty ↔ ∃ node, s.Reaches ty node ∧ s.Guarded node := by
  unfold Retains
  apply exists_congr
  intro node
  rw [guarded_iff, exists_and_left]

/-- The sorted duplicate-free list of the parameters on open paths. -/
def ListsFree (s : Store) (ty : TypeId) (freeParams : List TypeParamId) : Prop :=
  freeParams.Pairwise (· < ·) ∧ ∀ p, p ∈ freeParams ↔ s.FreePath ty p

/-- The key mode keeps the full map exactly when a guarded row is reached. -/
def ModeFor (s : Store) (ty : TypeId) (mode : ApplicationKeyMode) : Prop :=
  mode = .fullMap ↔ ∃ node, s.Reaches ty node ∧ s.Guarded node

theorem ExactFree.listsFree {freeParams : List TypeParamId} (h : s.ExactFree ty freeParams) :
    s.ListsFree ty freeParams :=
  ⟨h.sorted, fun p => (h.mem_iff p).trans freeIn_iff_path⟩

theorem ExactMode.modeFor {mode : ApplicationKeyMode} (h : s.ExactMode ty mode) :
    s.ModeFor ty mode :=
  h.fullMap_iff.trans retains_iff_guarded

end Store

/-! ## §2 What is published stays published -/

namespace DerivedGraphCache

variable {K V : Type} [DecidableEq K] {cache : DerivedGraphCache K V} {key : K}

theorem get_isSome : (cache.get key).isSome ↔ key ∈ cache.base ∨ key ∈ cache.suffix := by
  unfold get
  simp [Finmap.lookup_isSome, or_comm]

theorem get_insert_isSome (value : V) (node : K) :
    ((cache.insert node value).get key).isSome ↔ key = node ∨ (cache.get key).isSome := by
  unfold insert
  split
  · rename_i hmem
    constructor
    · exact .inr
    · rintro (rfl | h)
      · exact get_isSome.mpr hmem
      · exact h
  · simp [get_isSome, or_left_comm]

theorem get_insertBatch_isSome {entries : List (K × V)}
    (h : (cache.get key).isSome ∨ key ∈ entries.map (fun entry => entry.1)) :
    ((cache.insertBatch entries).get key).isSome := by
  unfold insertBatch
  induction entries generalizing cache with
  | nil => simpa using h
  | cons entry entries ih =>
    apply ih
    rw [get_insert_isSome]
    rcases h with h | h
    · exact .inl (.inr h)
    · rw [List.map_cons, List.mem_cons] at h
      exact h.imp_left .inl

omit [DecidableEq K] in
theorem alignWith_of_eq {identity : Nat} (h : cache.graphIdentity = identity) :
    cache.alignWith identity = cache := if_pos h

theorem graphIdentity_insertBatch (entries : List (K × V)) :
    (cache.insertBatch entries).graphIdentity = cache.graphIdentity := by
  unfold insertBatch
  induction entries generalizing cache with
  | nil => rfl
  | cons entry entries ih =>
    rw [List.foldl_cons, ih]
    unfold insert
    split <;> rfl

end DerivedGraphCache

variable (cache : FreeParamSummaryCache)

/-- The summary cache answers like a result cache with the same two layers. -/
def FreeParamSummaryCache.layers :
    DerivedGraphCache TypeId (List TypeParamId) :=
  ⟨cache.graphIdentity, cache.base, cache.suffix⟩

theorem FreeParamSummaryCache.get_eq_layers (ty : TypeId) :
    cache.get ty = cache.layers.get ty := rfl

theorem FreeParamSummaryCache.layers_insert (ty : TypeId) (summary : List TypeParamId) :
    (cache.insert ty summary).layers = cache.layers.insert ty summary := by
  unfold insert DerivedGraphCache.insert layers
  split <;> rfl

theorem FreeParamSummaryCache.layers_insertBatch (summaries : List (TypeId × List TypeParamId)) :
    (cache.insertBatch summaries).layers = cache.layers.insertBatch summaries := by
  unfold insertBatch DerivedGraphCache.insertBatch
  induction summaries generalizing cache with
  | nil => rfl
  | cons entry summaries ih =>
    rw [List.foldl_cons, List.foldl_cons, ih, layers_insert]

theorem FreeParamSummaryCache.graphIdentity_insertBatch
    (summaries : List (TypeId × List TypeParamId)) :
    (cache.insertBatch summaries).graphIdentity = cache.graphIdentity := by
  show (cache.insertBatch summaries).layers.graphIdentity = cache.layers.graphIdentity
  rw [layers_insertBatch, DerivedGraphCache.graphIdentity_insertBatch]

theorem FreeParamSummaryCache.alignWith_of_eq {cache : FreeParamSummaryCache} {identity : Nat}
    (h : cache.graphIdentity = identity) : cache.alignWith identity = cache := if_pos h


namespace Interner

variable {structuralHash : StructuralKey → Nat} {regular : Prop} {σ τ : Interner}

section Publishing

variable {summaries : List (TypeId × List TypeParamId)} {modes : List (TypeId × ApplicationKeyMode)}
  {ty : TypeId}

/-- A published free-parameter summary is found again. -/
theorem isSome_freeParamSummary_publish (h : ty ∈ summaries.map (fun entry => entry.1)) :
    (((σ.publishFreeParamSummaries summaries).publishApplicationKeyModes modes).freeParamSummary
      ty).1.isSome := by
  show ((((σ.freeParamSummaries.alignWith σ.store.semanticGraphIdentity).insertBatch
    summaries).alignWith σ.store.semanticGraphIdentity).get ty).isSome
  rw [FreeParamSummaryCache.alignWith_of_eq]
  · rw [FreeParamSummaryCache.get_eq_layers, FreeParamSummaryCache.layers_insertBatch]
    exact DerivedGraphCache.get_insertBatch_isSome (.inr h)
  · rw [FreeParamSummaryCache.graphIdentity_insertBatch,
      FreeParamSummaryCache.graphIdentity_alignWith]

/-- A published key mode is found again. -/
theorem isSome_applicationKeyMode_publish (h : ty ∈ modes.map (fun entry => entry.1)) :
    (((σ.publishFreeParamSummaries summaries).publishApplicationKeyModes modes).applicationKeyMode
      ty).1.isSome := by
  show ((((σ.applicationKeyModes.alignWith σ.store.semanticGraphIdentity).insertBatch
    modes).alignWith σ.store.semanticGraphIdentity).get ty).isSome
  rw [DerivedGraphCache.alignWith_of_eq]
  · exact DerivedGraphCache.get_insertBatch_isSome (.inr h)
  · rw [DerivedGraphCache.graphIdentity_insertBatch, graphIdentity_alignWith]

end Publishing

/-- The root is published whenever it had to be computed, and cached otherwise. -/
theorem computeApplicationSummaries_cached (hσ : σ.CachedExact) {root : TypeId}
    {summary : ApplicationSummary} (h : σ.computeApplicationSummaries root = some (summary, τ)) :
    ((τ.freeParamSummary root).1).isSome ∧ ((τ.applicationKeyMode root).1).isSome := by
  unfold computeApplicationSummaries at h
  dsimp only at h
  rw [aligned_of_lookups] at h
  cases hcached : σ.alignSummaries.cachedSummary root with
  | some cached =>
    rw [hcached] at h
    cases h
    unfold cachedSummary at hcached
    split at hcached
    · rename_i hfree hmode
      rw [hfree, hmode]
      exact ⟨rfl, rfl⟩
    · cases hcached
  | none =>
    rw [hcached] at h
    simp only [bind_eq_bind, bind_eq_some_iff, some.injEq, Prod.mk.injEq] at h
    obtain ⟨state, hdiscover, values, -, -, rfl⟩ := h
    have hσ' : σ.alignSummaries.CachedExact := by
      intro ty cached hcached
      rw [cachedSummary_alignSummaries] at hcached
      exact hσ ty cached hcached
    have hroot : root ∈ state.discovered := (discover_spec hσ' hdiscover
      (Discovery.sound_start root) (Discovery.progress_start root)).1.root_mem
    -- both batches have an entry for every discovered id
    constructor
    · apply isSome_freeParamSummary_publish
      simpa using hroot
    · apply isSome_applicationKeyMode_publish
      simpa using hroot

/-! ## §3 Every state of the caches -/

/-- The states that interner operations and summary queries reach, in any order. -/
inductive Queried (structuralHash : StructuralKey → Nat) : Interner → Prop
  | start : Queried structuralHash (withIntrinsics structuralHash)
  | step {fuel : Nat} {op : InternerOp} {result : OpResult} {σ τ : Interner} :
      Queried structuralHash σ → op.step structuralHash fuel σ = some (result, τ) →
      Queried structuralHash τ
  | query {ty : TypeId} {freeParams : List TypeParamId} {σ τ : Interner} :
      Queried structuralHash σ → σ.derivedFreeParams ty = some (freeParams, τ) →
      Queried structuralHash τ

theorem derivedFreeParams_eq_some {ty : TypeId} {freeParams : List TypeParamId} :
    σ.derivedFreeParams ty = some (freeParams, τ) ↔ ∃ summary : ApplicationSummary,
      σ.computeApplicationSummaries ty = some (summary, τ) ∧ summary.freeParams = freeParams := by
  unfold derivedFreeParams
  simp [map_eq_some_iff]

/-- A history without queries is one of them. -/
theorem Queried.runHistory {fuel : Nat} {history : List InternerOp} {results : List OpResult}
    (hσ : σ.Queried structuralHash)
    (hrun : Types.runHistory structuralHash fuel history σ = some (results, τ)) :
    τ.Queried structuralHash := by
  induction history generalizing σ results with
  | nil =>
    cases hrun
    exact hσ
  | cons op ops ih =>
    simp only [Types.runHistory, bind_eq_bind, bind_eq_some_iff, some.injEq, Prod.mk.injEq] at hrun
    obtain ⟨⟨result, σ₁⟩, hstep, ⟨rest, σ₂⟩, hrest, _, rfl⟩ := hrun
    exact ih (hσ.step hstep) hrest

/-- **Operations and queries in any order** keep the caches fresh. -/
theorem Queried.fresh (h : σ.Queried structuralHash) :
    σ.Consed structuralHash False ∧ CachesFresh structuralHash False σ := by
  induction h with
  | start => exact ⟨consed_withIntrinsics, cachesFresh_withIntrinsics⟩
  | step _ hstep ih =>
    obtain ⟨hσ, hfresh⟩ := ih
    exact ⟨hσ.steps (steps_step hσ False.elim hstep),
      cachesFresh_step hfresh hσ False.elim hstep⟩
  | query _ hquery ih =>
    obtain ⟨hσ, hfresh⟩ := ih
    obtain ⟨summary, hrun, -⟩ := derivedFreeParams_eq_some.mp hquery
    have hcore := sameCore_computeApplicationSummaries hrun
    exact ⟨(Grows.of_sameCore hσ hcore).consed hσ,
      CachesFresh.computeApplicationSummaries hfresh hσ hrun⟩

/-- **Free-parameter summaries are exact.**  The query answers exactly the ids below which
    every id has a row.  Its answer lists the parameters on open paths, sorted and without
    duplicates; the root is published with it, and every list and every key mode that the
    caches then hold, for whatever node, is exact for that node. -/
theorem derivedFreeParams_exact (hσ : σ.Queried structuralHash) (ty : TypeId) :
    ((∃ result, σ.derivedFreeParams ty = some result) ↔ σ.store.Grounded ty) ∧
    ∀ freeParams τ, σ.derivedFreeParams ty = some (freeParams, τ) →
      τ.store = σ.store ∧ σ.store.ListsFree ty freeParams ∧
      (τ.freeParamSummary ty).1 = some freeParams ∧
      (∃ mode, (τ.applicationKeyMode ty).1 = some mode) ∧
      (∀ node published, (τ.freeParamSummary node).1 = some published →
        σ.store.ListsFree node published) ∧
      ∀ node mode, (τ.applicationKeyMode node).1 = some mode → σ.store.ModeFor node mode := by
  obtain ⟨hconsed, hfresh⟩ := hσ.fresh
  have hcached : σ.CachedExact := hfresh.toSummariesFresh.cachedExact hconsed
  refine ⟨⟨?_, fun hground => ?_⟩, fun freeParams τ hrun => ?_⟩
  · rintro ⟨⟨freeParams, τ⟩, hrun⟩
    obtain ⟨summary, hcompute, -⟩ := derivedFreeParams_eq_some.mp hrun
    exact (computeApplicationSummaries_exact hcached hcompute).1.grounded
  · obtain ⟨⟨summary, τ⟩, hcompute⟩ :=
      computeApplicationSummaries_isSome hcached hconsed.wellFormed hground
    exact ⟨_, derivedFreeParams_eq_some.mpr ⟨summary, hcompute, rfl⟩⟩
  · obtain ⟨hconsed', hfresh'⟩ := (hσ.query hrun).fresh
    obtain ⟨summary, hcompute, rfl⟩ := derivedFreeParams_eq_some.mp hrun
    have hstore : τ.store = σ.store := (sameCore_computeApplicationSummaries hcompute).store_eq
    have hfree : ∀ node published, (τ.freeParamSummary node).1 = some published →
        σ.store.ExactFree node published := by
      intro node published hget
      rw [← hstore]
      exact hfresh'.freeParamSummary hconsed' hget
    have hexact := (computeApplicationSummaries_exact hcached hcompute).1
    obtain ⟨hpublished, hmode⟩ := computeApplicationSummaries_cached hcached hcompute
    refine ⟨hstore, hexact.listsFree, ?_, isSome_iff_exists.mp hmode, ?_, ?_⟩
    · -- the published list is exact too, and exact lists are unique
      obtain ⟨published, hget⟩ := isSome_iff_exists.mp hpublished
      rw [hget, (hfree ty published hget).unique hexact]
    · exact fun node published hget => (hfree node published hget).listsFree
    · intro node mode hget
      rw [← hstore]
      exact (hfresh'.applicationKeyMode hconsed' hget).modeFor

/-- `type Node<T> = { next: Node<T>, value: T }`, a cycle above one parameter. -/
theorem derivedFreeParams_exact_cycle :
    ∃ σ τ : Interner, σ.Queried (fun _ => 0) ∧ σ.derivedFreeParams 20 = some ([0], τ) ∧
      σ.store.ListsFree 20 [0] ∧ (τ.freeParamSummary 20).1 = some [0] := by
  obtain ⟨reached, hrun, hfree⟩ := exists_of_run
    (r := Types.runHistory (fun _ => 0) 0 [.internTypeParam 0 "T", .reserveObject,
      .fillObject 20 { properties := [⟨.string "next", 20, none, false, .publicAccess, none, false,
        false⟩, ⟨.string "value", 19, none, false, .publicAccess, none, false, false⟩] }]
      (withIntrinsics (fun _ => 0)))
    (P := fun reached => (reached.2.derivedFreeParams 20).map (fun result => result.1) = some [0])
    (by decide +kernel)
  have hqueried : reached.2.Queried (fun _ => 0) := Queried.start.runHistory hrun
  obtain ⟨⟨freeParams, τ⟩, hquery, rfl⟩ := map_eq_some_iff.mp hfree
  obtain ⟨-, hlists, hpublished, -⟩ :=
    (derivedFreeParams_exact hqueried 20).2 [0] τ hquery
  exact ⟨reached.2, τ, hqueried, hquery, hlists, hpublished⟩

end Interner

end Typokat.Types
