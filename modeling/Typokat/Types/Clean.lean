import Typokat.Types.Transfer

/-!
# Durable Clean Results

What a root substitution depends on, and hence what the key of its durable result has to
record.  Below a root that reaches no distribution guard only the arguments of free
parameters are read; otherwise a guard may copy the whole map into its result.

## Main Results

- `Walks.relevant` : without a guard, only the arguments of free parameters matter
- `Interner.CleanEntry` : what a durable result promises, for every map with its key
- `Interner.CachesFresh` : the three derived caches hold only what is true now
-/

namespace Typokat.Types

open Interner

variable {structuralHash : StructuralKey → Nat} {regular : Prop}

/-! ## §1 Relevant arguments -/

section Relevant

variable {σ : Interner} {map map' : FxHashMap TypeParamId TypeId} {ip : FxHashSet TypeId}
  {blocked : FxHashSet TypeParamId} {ty : TypeId} {visit : Visit} {row : Row} {n : Nat}

/-- The maps agree on what is free and not blocked below `ty`. -/
def Agrees (σ : Interner) (map map' : FxHashMap TypeParamId TypeId)
    (blocked : FxHashSet TypeParamId) (ty : TypeId) : Prop :=
  ∀ q, σ.store.FreeIn ty q → q ∉ blocked → map.lookup q = map'.lookup q

theorem Agrees.live_iff (h : Agrees σ map map' blocked ty) :
    Live σ map blocked ty ↔ Live σ map' blocked ty := by
  have hmem : ∀ q, σ.store.FreeIn ty q → q ∉ blocked → (q ∈ map ↔ q ∈ map') := by
    intro q hfree hblocked
    rw [← Finmap.lookup_isSome, ← Finmap.lookup_isSome, h q hfree hblocked]
  constructor
  · rintro ⟨q, hq, hblocked, hfree⟩
    exact ⟨q, (hmem q hfree hblocked).mp hq, hblocked, hfree⟩
  · rintro ⟨q, hq, hblocked, hfree⟩
    exact ⟨q, (hmem q hfree hblocked).mpr hq, hblocked, hfree⟩

/-- A row without a guard reads the arguments of its own parameters only. -/
theorem dispatch_agrees (hrow : σ.store.row ty = some row)
    (hretains : row.retainsFullMapper = false) (h : Agrees σ map map' blocked ty) :
    dispatch structuralHash map blocked σ ty row
      = dispatch structuralHash map' blocked σ ty row := by
  cases row <;> try rfl
  case typeParam param =>
    by_cases hblocked : param.id ∈ blocked
    · simp [dispatch, hblocked]
    · simp [dispatch, hblocked, h param.id (.own hrow (by simp [Store.ownParameters])) hblocked]
  case conditional body =>
    have hguard : (body.distributive && !body.poisoned) = false := hretains
    simp only [dispatch, dispatchConditional, hguard]
    rfl
  case mapped body =>
    have hguard : body.homomorphic = false := hretains
    simp only [dispatch, dispatchMapped, hguard]
    rfl
  case declared body =>
    simp only [dispatch]
    cases hrecipe : σ.store.declaredRecipe body.recipe with
    | none => rfl
    | some recipe =>
      have hadded : recipe.freeParams.filterMap (fun p =>
          if p ∈ body.mapper.map (fun e => e.1) ∨ p ∈ blocked then none
          else (map.lookup p).map (fun value => (p, value)))
        = recipe.freeParams.filterMap (fun p =>
          if p ∈ body.mapper.map (fun e => e.1) ∨ p ∈ blocked then none
          else (map'.lookup p).map (fun value => (p, value))) := by
        refine List.filterMap_congr (fun p hp => ?_)
        by_cases hskip : p ∈ body.mapper.map (fun e => e.1) ∨ p ∈ blocked
        · rw [if_pos hskip, if_pos hskip]
        · rw [if_neg hskip, if_neg hskip]
          obtain ⟨hkey, hblocked⟩ := not_or.mp hskip
          rw [h p (.own hrow ?_) hblocked]
          simp only [Store.ownParameters, hrecipe]
          exact List.mem_filter.mpr ⟨hp, decide_eq_true hkey⟩
      simp only [Option.bind_eq_bind, Option.bind_some, applyDeclared, hadded]

/-- A row without a guard neither defers nor distributes. -/
theorem dispatch_of_not_retains {asked : Dispatch} (hretains : row.retainsFullMapper = false)
    (hask : dispatch structuralHash map blocked σ ty row = some asked) :
    (∃ result, asked = .done result) ∨ ∃ arm, asked = .rewrite arm := by
  cases row <;> simp only [dispatch, Option.some.injEq] at hask
  case conditional body =>
    have hguard : (body.distributive && !body.poisoned) = false := hretains
    simp only [dispatchConditional, hguard] at hask
    cases hask
    exact .inr ⟨_, rfl⟩
  case mapped body =>
    have hguard : body.homomorphic = false := hretains
    simp only [dispatchMapped, hguard] at hask
    cases hask
    exact .inr ⟨_, rfl⟩
  case declared body =>
    obtain ⟨recipe, _, hask⟩ := Option.bind_eq_some_iff.mp hask
    cases hask
    exact .inr ⟨_, rfl⟩
  all_goals
    subst hask
    first
      | exact .inl ⟨_, rfl⟩
      | exact .inr ⟨_, rfl⟩

/-- **Below a root that reaches no guard only the arguments of free parameters matter.** -/
theorem Walks.relevant (h : Walks structuralHash σ n map ip blocked ty visit)
    (hretains : ¬σ.store.Retains ty) (hagrees : Agrees σ map map' blocked ty) :
    Walks structuralHash σ n map' ip blocked ty visit := by
  induction n generalizing ip blocked ty visit with
  | zero => exact h.elim
  | succ n ih =>
    have hlive := hagrees.live_iff
    have hrow_retains : ∀ {row : Row}, σ.store.row ty = some row →
        row.retainsFullMapper = false := by
      intro row hrow
      by_contra hflag
      exact hretains ⟨ty, row, .refl, hrow, by simpa using hflag⟩
    have hclean : ¬Live σ map' blocked ty →
        Walks structuralHash σ (n + 1) map' ip blocked ty (.clean ty) := by
      intro hdead
      by_cases hmap' : map' = ∅
      · exact WalkStep.empty hmap'
      · exact WalkStep.inert hmap' hdead
    cases h with
    | empty hmap =>
      refine hclean (fun hl => ?_)
      obtain ⟨q, hq, _⟩ := hlive.mpr hl
      subst hmap
      exact Finmap.notMem_empty hq
    | inert _ hdead => exact hclean (fun hl => hdead (hlive.mpr hl))
    | cut hl hip => exact WalkStep.cut (hlive.mp hl) hip
    | done hl hip hrow hask =>
      exact WalkStep.done (hlive.mp hl) hip hrow
        (dispatch_agrees hrow (hrow_retains hrow) hagrees ▸ hask)
    | defer _ _ hrow hask _ =>
      rcases dispatch_of_not_retains (hrow_retains hrow) hask with ⟨_, h⟩ | ⟨_, h⟩ <;> cases h
    | distribute _ _ hrow hask _ _ =>
      rcases dispatch_of_not_retains (hrow_retains hrow) hask with ⟨_, h⟩ | ⟨_, h⟩ <;> cases h
    | @rewrite _ _ _ _ row arm visits result hl hip hrow hask hchildren hfinish =>
      refine WalkStep.rewrite (hlive.mp hl) hip hrow
        (dispatch_agrees hrow (hrow_retains hrow) hagrees ▸ hask) ?_ hfinish
      refine forall₂_imp_of_mem hchildren (fun child childVisit hc _ hbelow => ?_)
      obtain ⟨hsub, _, _⟩ := dispatch_rewrite hask
      refine ih hbelow (fun hr => hretains (hr.child ⟨row, hrow, hsub child hc⟩)) ?_
      intro q hfree hq
      simp only [Finset.mem_union, List.mem_toFinset, not_or] at hq
      exact hagrees q (freeIn_of_child hrow hask hc hfree hq.2) hq.1

end Relevant

/-! ## §2 What a durable result promises -/

/-- The arguments that the key of a root records. -/
def cleanArguments (mode : ApplicationKeyMode) (freeParams : List TypeParamId)
    (map : FxHashMap TypeParamId TypeId) : List (TypeParamId × TypeId) :=
  match mode with
  | .relevantOnly => freeParams.filterMap (fun id =>
      (map.lookup id).map (fun argument => (id, argument)))
  | .fullMap => FxHashMap.sortedEntries map

theorem mem_relevantArguments {freeParams : List TypeParamId} {map : FxHashMap TypeParamId TypeId}
    {q : TypeParamId} {value : TypeId} :
    (q, value) ∈ cleanArguments .relevantOnly freeParams map ↔
      q ∈ freeParams ∧ map.lookup q = some value := by
  simp only [cleanArguments, List.mem_filterMap, Option.map_eq_some_iff, Prod.mk.injEq]
  constructor
  · rintro ⟨p, hp, v, hv, rfl, rfl⟩
    exact ⟨hp, hv⟩
  · rintro ⟨hq, hv⟩
    exact ⟨q, hq, value, hv, rfl, rfl⟩

namespace Interner

/-- The result is that of the walk, for every map with the arguments of the key. -/
def CleanEntry (structuralHash : StructuralKey → Nat) (key : CleanApplicationKey)
    (result : TypeId) (σ : Interner) : Prop :=
  ∃ freeParams, σ.store.ExactFree key.source freeParams ∧ σ.store.ExactMode key.source key.mode ∧
    ∀ map, cleanArguments key.mode freeParams map = key.arguments →
      ∃ n, Walks structuralHash σ n map ∅ ∅ key.source (.clean result)

theorem monotonic_cleanEntry (key : CleanApplicationKey) (result : TypeId) :
    Monotonic structuralHash regular (CleanEntry structuralHash key result) := by
  rintro σ τ hσ hτ hext ⟨freeParams, hfree, hmode, hwalks⟩
  refine ⟨freeParams, hfree.extends hσ hext, hmode.extends hext, fun map hmap => ?_⟩
  obtain ⟨n, hwalk⟩ := hwalks map hmap
  exact ⟨n, hwalk.extends hσ hτ hext hfree.grounded⟩

/-- **A clean walk may be filed under its key.** -/
theorem cleanEntry_of_walks {σ : Interner} {ty result : TypeId} {mode : ApplicationKeyMode}
    {freeParams : List TypeParamId} {map : FxHashMap TypeParamId TypeId} {n : Nat}
    (hfree : σ.store.ExactFree ty freeParams) (hmode : σ.store.ExactMode ty mode)
    (hwalk : Walks structuralHash σ n map ∅ ∅ ty (.clean result)) :
    CleanEntry structuralHash ⟨ty, mode, cleanArguments mode freeParams map⟩ result σ := by
  refine ⟨freeParams, hfree, hmode, fun map' heq => ⟨n, ?_⟩⟩
  change cleanArguments mode freeParams map' = cleanArguments mode freeParams map at heq
  cases mode with
  | fullMap =>
    rw [FxHashMap.sortedEntries_injective heq]
    exact hwalk
  | relevantOnly =>
    have hretains : ¬σ.store.Retains ty := fun h => nomatch hmode.fullMap_iff.mpr h
    refine hwalk.relevant hretains (fun q hq _ => Option.ext (fun value => ?_))
    -- both keys list the same arguments of the free parameters
    have hmem := (hfree.mem_iff q).mpr hq
    have hiff : (q, value) ∈ cleanArguments .relevantOnly freeParams map ↔
        (q, value) ∈ cleanArguments .relevantOnly freeParams map' := by rw [heq]
    simpa [mem_relevantArguments, hmem] using hiff

/-- Every entry of the three derived caches that can still be returned is true now. -/
structure CachesFresh (structuralHash : StructuralKey → Nat) (regular : Prop) (σ : Interner) :
    Prop extends SummariesFresh structuralHash regular σ where
  clean : FreshDerived structuralHash regular (CleanEntry structuralHash) σ
    σ.cleanApplicationResults

namespace CachesFresh

variable {σ τ : Interner}

section Caches

variable (h : CachesFresh structuralHash regular σ) (hσ : σ.Consed structuralHash regular)
include h hσ

theorem cleanApplicationResult {key : CleanApplicationKey} {result : TypeId}
    (hget : (σ.cleanApplicationResult key).1 = some result) :
    CleanEntry structuralHash key result σ :=
  h.clean.get_alignWith monotonic_cleanEntry hσ hget

/-- The summaries change and the clean results stay. -/
theorem of_summaries (hcore : SameCore σ τ) (hsummaries : SummariesFresh structuralHash regular τ)
    (hclean : τ.cleanApplicationResults = σ.cleanApplicationResults) :
    CachesFresh structuralHash regular τ :=
  { hsummaries with
    clean := by
      rw [hclean]
      exact h.clean.sameCore monotonic_cleanEntry hσ hcore }

theorem lookup (key : CleanApplicationKey) :
    CachesFresh structuralHash regular (σ.cleanApplicationResult key).2 :=
  { SummariesFresh.of_sameCore hσ (sameCore_cleanApplicationResult σ key) h.free h.modes with
    clean := h.clean.alignWith.sameCore monotonic_cleanEntry hσ
      (sameCore_cleanApplicationResult σ key) }

/-- **Publishing a valid clean result** keeps the caches fresh. -/
theorem publish {key : CleanApplicationKey} {result : TypeId}
    (hentry : CleanEntry structuralHash key result σ) :
    CachesFresh structuralHash regular (σ.publishCleanApplicationResult key result) := by
  have hcore := sameCore_publishCleanApplicationResult σ key result
  refine { SummariesFresh.of_sameCore hσ hcore h.free h.modes with clean := ?_ }
  refine FreshDerived.sameCore monotonic_cleanEntry hσ hcore ?_
  have hbatch : FreshDerived structuralHash regular (CleanEntry structuralHash) σ
      ((σ.cleanApplicationResults.alignWith σ.store.semanticGraphIdentity).insertBatch
        [(key, result)]) :=
    FreshDerived.insertBatch (by simpa using hentry) (graphIdentity_alignWith _ _)
      h.clean.alignWith
  exact hbatch

/-- Rows are only added and the token stays. -/
theorem extend (hgrow : Grows structuralHash regular σ τ) (hcaches : SameCaches σ τ) :
    CachesFresh structuralHash regular τ where
  free := by
    rw [hcaches.freeParams]
    exact FreshCache.extend (fun _ _ _ _ hσ _ hext hf => hf.extends hσ hext) hσ h.free hgrow
  modes := by
    rw [hcaches.modes]
    exact FreshCache.extend monotonic_exactMode hσ h.modes hgrow
  clean := by
    rw [hcaches.clean]
    exact FreshCache.extend monotonic_cleanEntry hσ h.clean hgrow

end Caches

end CachesFresh

end Interner

end Typokat.Types
