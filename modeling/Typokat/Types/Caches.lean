import Typokat.Types.Summary

/-!
# Fresh Derived Caches

The three derived caches of the interner have one shape: a base that was filled before the
interner was sealed and a suffix that is only read while the identity token of the graph
is the one it was filled under.  A cache is fresh when its suffix entries hold of the
current graph, if the token is current, and its base entries hold of the sealed prefix,
which no operation changes.

## Main Results

- `Interner.FreshCache` : the invariant, over an arbitrary predicate on entries
- `Interner.FreshCache.extend`, `mark`, `sealed`, `forked` : what keeps it
-/

namespace Typokat.Types

open Interner Finmap

variable {structuralHash : StructuralKey → Nat} {regular : Prop} {σ τ : Interner}

/-! ## §1 Exact summaries in an extension -/

section Extension

theorem ownParameters_extends (hσ : σ.Consed structuralHash regular) (h : Extends σ τ) {ty : TypeId}
    {r : Row} (hr : σ.store.row ty = some r) :
    τ.store.ownParameters r = σ.store.ownParameters r := by
  cases r <;> try rfl
  case declared body =>
    obtain ⟨recipe, hrecipe, _⟩ := hσ.canonical ty _ hr
    simp only [Store.ownParameters, hrecipe, h.recipe hrecipe]

theorem nodeBinders_extends (h : Extends σ τ) {ty : TypeId} {r : Row} (hr : σ.store.row ty = some r) :
    τ.store.nodeBinders ty = σ.store.nodeBinders ty := by
  unfold Store.nodeBinders
  rw [h.row_eq hr]

theorem edge_extends (h : Extends σ τ) {ty c : TypeId} {r : Row} (hr : σ.store.row ty = some r) :
    τ.store.Edge ty c ↔ σ.store.Edge ty c := by
  unfold Store.Edge
  rw [h.row_eq hr]

theorem reaches_extends (h : Extends σ τ) {ty node : TypeId} (hty : σ.store.Grounded ty) :
    τ.store.Reaches ty node ↔ σ.store.Reaches ty node := by
  constructor
  · intro hreach
    induction hreach using Relation.ReflTransGen.head_induction_on with
    | refl => exact .refl
    | @head ty c hedge _ ih =>
      obtain ⟨r, hr⟩ := hty ty .refl
      have hedge := (edge_extends h hr).mp hedge
      exact .head hedge (ih (hty.child hedge))
  · intro hreach
    induction hreach using Relation.ReflTransGen.head_induction_on with
    | refl => exact .refl
    | @head ty c hedge _ ih =>
      obtain ⟨r, hr, _⟩ := id hedge
      exact .head ((edge_extends h hr).mpr hedge) (ih (hty.child hedge))

theorem Store.Grounded.extends (h : Extends σ τ) {ty : TypeId} (hty : σ.store.Grounded ty) :
    τ.store.Grounded ty := by
  intro node hreach
  obtain ⟨r, hr⟩ := hty node ((reaches_extends h hty).mp hreach)
  exact ⟨r, h.row hr⟩

theorem freeIn_extends (hσ : σ.Consed structuralHash regular) (h : Extends σ τ) {ty : TypeId}
    (hty : σ.store.Grounded ty) (p : TypeParamId) :
    τ.store.FreeIn ty p ↔ σ.store.FreeIn ty p := by
  constructor
  · intro hfree
    induction hfree with
    | @own ty p r hr hown =>
      obtain ⟨r', hr'⟩ := hty ty .refl
      have heq : r = r' := Option.some.inj (hr.symm.trans (h.row hr'))
      subst heq
      rw [ownParameters_extends hσ h hr'] at hown
      exact .own hr' hown
    | @child ty c p hedge _ hbinders ih =>
      obtain ⟨r, hr⟩ := hty ty .refl
      have hedge := (edge_extends h hr).mp hedge
      rw [nodeBinders_extends h hr] at hbinders
      exact .child hedge (ih (hty.child hedge)) hbinders
  · intro hfree
    induction hfree with
    | @own ty p r hr hown =>
      rw [← ownParameters_extends hσ h hr] at hown
      exact .own (h.row hr) hown
    | @child ty c p hedge _ hbinders ih =>
      obtain ⟨r, hr, _⟩ := id hedge
      rw [← nodeBinders_extends h hr] at hbinders
      exact .child ((edge_extends h hr).mpr hedge) (ih (hty.child hedge)) hbinders

theorem retains_extends (h : Extends σ τ) {ty : TypeId} (hty : σ.store.Grounded ty) :
    τ.store.Retains ty ↔ σ.store.Retains ty := by
  constructor
  · rintro ⟨node, r, hreach, hr, hflag⟩
    have hreach := (reaches_extends h hty).mp hreach
    obtain ⟨r', hr'⟩ := hty node hreach
    have heq : r = r' := Option.some.inj (hr.symm.trans (h.row hr'))
    exact ⟨node, r', hreach, hr', heq ▸ hflag⟩
  · rintro ⟨node, r, hreach, hr, hflag⟩
    exact ⟨node, r, (reaches_extends h hty).mpr hreach, h.row hr, hflag⟩

/-- Exact free parameters stay exact when rows are added. -/
theorem Store.ExactFree.extends (hσ : σ.Consed structuralHash regular) (h : Extends σ τ)
    {ty : TypeId} {freeParams : List TypeParamId} (hfree : σ.store.ExactFree ty freeParams) :
    τ.store.ExactFree ty freeParams where
  grounded := hfree.grounded.extends h
  mem_iff := fun p => (hfree.mem_iff p).trans (freeIn_extends hσ h hfree.grounded p).symm
  sorted := hfree.sorted

theorem Store.ExactMode.extends (h : Extends σ τ) {ty : TypeId} {mode : ApplicationKeyMode}
    (hmode : σ.store.ExactMode ty mode) : τ.store.ExactMode ty mode where
  grounded := hmode.grounded.extends h
  fullMap_iff := hmode.fullMap_iff.trans (retains_extends h hmode.grounded).symm

end Extension

/-! ## §2 The invariant of one cache -/

namespace Interner

/-- The predicate holds of a prefix whose rows are all sealed. -/
def Durable (structuralHash : StructuralKey → Nat) (regular : Prop) (P : Interner → Prop)
    (σ : Interner) : Prop :=
  ∃ b : Interner, b.Consed structuralHash regular ∧ Extends b σ ∧
    b.store.len ≤ σ.store.baseLen ∧ P b

/-- A predicate that no extension falsifies. -/
def Monotonic (structuralHash : StructuralKey → Nat) (regular : Prop) (P : Interner → Prop) :
    Prop :=
  ∀ σ τ, σ.Consed structuralHash regular → τ.Consed structuralHash regular → Extends σ τ →
    P σ → P τ

theorem Durable.steps {P : Interner → Prop} (hσ : σ.Consed structuralHash regular)
    (h : Durable structuralHash regular P σ) (hsteps : Steps structuralHash regular σ τ) :
    Durable structuralHash regular P τ := by
  obtain ⟨b, hb, hext, hlen, hP⟩ := h
  refine ⟨b, hb, hext.steps_of_settled hσ (fun id r hr => hσ.settled_of_lt ?_) hsteps,
    hlen.trans hsteps.baseLen_le, hP⟩
  exact (hb.wellFormed.lt_of_row hr).trans_le hlen

theorem Durable.holds {P : Interner → Prop} (hP : Monotonic structuralHash regular P)
    (hσ : σ.Consed structuralHash regular) (h : Durable structuralHash regular P σ) : P σ := by
  obtain ⟨b, hb, hext, _, hPb⟩ := h
  exact hP b σ hb hσ hext hPb

/-- A cache with the given token, base and suffix is fresh. -/
structure FreshCache (structuralHash : StructuralKey → Nat) (regular : Prop) {K V : Type}
    [DecidableEq K] (P : K → V → Interner → Prop) (σ : Interner) (graphIdentity : Nat)
    (base suffix : FxHashMap K V) : Prop where
  le : graphIdentity ≤ σ.store.semanticGraphIdentity
  base : ∀ key value, base.lookup key = some value →
    Durable structuralHash regular (P key value) σ
  suffix : graphIdentity = σ.store.semanticGraphIdentity → ∀ key value,
    suffix.lookup key = some value → P key value σ

namespace FreshCache

variable {K V : Type} [DecidableEq K] {P : K → V → Interner → Prop} {identity : Nat}
  {base suffix : FxHashMap K V}

section Monotone

variable (hP : ∀ key value, Monotonic structuralHash regular (P key value))
  (hσ : σ.Consed structuralHash regular)
  (h : FreshCache structuralHash regular P σ identity base suffix)
include hP hσ h

/-- What a lookup in an aligned cache returns holds now. -/
theorem holds (hidentity : identity = σ.store.semanticGraphIdentity) {key : K} {value : V}
    (hget : (suffix.lookup key).or (base.lookup key) = some value) : P key value σ := by
  cases hsuffix : suffix.lookup key with
  | some found =>
    rw [hsuffix, Option.some_or] at hget
    cases hget
    exact h.suffix hidentity key value hsuffix
  | none =>
    rw [hsuffix, Option.none_or] at hget
    exact (h.base key value hget).holds (hP key value) hσ

/-- Rows are only added and the token stays. -/
theorem extend (hgrow : Grows structuralHash regular σ τ) :
    FreshCache structuralHash regular P τ identity base suffix where
  le := hgrow.identity ▸ h.le
  base := fun key value hget => (h.base key value hget).steps hσ hgrow.steps
  suffix := fun heq key value hget =>
    hP key value σ τ hσ (hgrow.consed hσ) hgrow.grown
      (h.suffix (heq.trans hgrow.identity) key value hget)

end Monotone

/-- The token changes. -/
theorem mark (hσ : σ.Consed structuralHash regular)
    (h : FreshCache structuralHash regular P σ identity base suffix)
    (hsteps : Steps structuralHash regular σ τ)
    (hidentity : σ.store.semanticGraphIdentity < τ.store.semanticGraphIdentity) :
    FreshCache structuralHash regular P τ identity base suffix where
  le := h.le.trans hidentity.le
  base := fun key value hget => (h.base key value hget).steps hσ hsteps
  suffix := fun heq => absurd (h.le.trans_lt hidentity) (heq ▸ lt_irrefl _)

/-- A valid entry is added under the current token. -/
theorem insert (h : FreshCache structuralHash regular P σ identity base suffix)
    (hidentity : identity = σ.store.semanticGraphIdentity) {key : K} {value : V}
    (hentry : P key value σ) :
    FreshCache structuralHash regular P σ identity base (suffix.insert key value) where
  le := h.le
  base := h.base
  suffix := by
    intro _ other found hget
    by_cases heq : other = key
    · subst heq
      rw [lookup_insert, Option.some.injEq] at hget
      exact hget ▸ hentry
    · rw [lookup_insert_of_ne _ heq] at hget
      exact h.suffix hidentity other found hget

/-- Nothing is found in an empty map. -/
theorem lookup_nothing {Q : K → V → Prop} (key : K) (value : V)
    (hget : (∅ : FxHashMap K V).lookup key = some value) : Q key value := by
  rw [lookup_empty] at hget
  cases hget

/-- The suffix is dropped. -/
theorem realign (h : FreshCache structuralHash regular P σ identity base suffix) :
    FreshCache structuralHash regular P σ σ.store.semanticGraphIdentity base ∅ where
  le := le_rfl
  base := h.base
  suffix _ := lookup_nothing

/-- The whole cache is dropped. -/
theorem reset (σ : Interner) :
    FreshCache structuralHash regular P σ σ.store.semanticGraphIdentity ∅ ∅ where
  le := le_rfl
  base := lookup_nothing
  suffix _ := lookup_nothing

/-- The suffix of an aligned cache moves below the base that is sealed. -/
theorem sealed (hσ : σ.Consed structuralHash regular)
    (h : FreshCache structuralHash regular P σ σ.store.semanticGraphIdentity base suffix)
    (hsteps : Steps structuralHash regular σ τ) (hext : Extends σ τ)
    (hlen : σ.store.len ≤ τ.store.baseLen) :
    FreshCache structuralHash regular P τ τ.store.semanticGraphIdentity (suffix ∪ base) ∅ where
  le := le_rfl
  base := by
    intro key value hget
    cases hsuffix : suffix.lookup key with
    | some found =>
      rw [lookup_union_left (mem_of_lookup_eq_some hsuffix), hsuffix, Option.some.injEq] at hget
      exact ⟨σ, hσ, hext, hlen, hget ▸ h.suffix rfl key found hsuffix⟩
    | none =>
      rw [lookup_union_right (lookup_eq_none.mp hsuffix)] at hget
      exact (h.base key value hget).steps hσ hsteps
  suffix _ := lookup_nothing

/-- A fork keeps the base under the token of the fork. -/
theorem forked (hσ : σ.Consed structuralHash regular)
    (h : FreshCache structuralHash regular P σ identity base suffix)
    (hsteps : Steps structuralHash regular σ τ) :
    FreshCache structuralHash regular P τ τ.store.semanticGraphIdentity base ∅ where
  le := le_rfl
  base := fun key value hget => (h.base key value hget).steps hσ hsteps
  suffix _ := lookup_nothing

end FreshCache

/-! ## §3 The caches of the interner -/

section Caches

variable {K V : Type} [DecidableEq K] {P : K → V → Interner → Prop}

/-- A result cache is fresh. -/
def FreshDerived (structuralHash : StructuralKey → Nat) (regular : Prop)
    (P : K → V → Interner → Prop) (σ : Interner) (cache : DerivedGraphCache K V) : Prop :=
  FreshCache structuralHash regular P σ cache.graphIdentity cache.base cache.suffix

/-- The summary cache is fresh. -/
def FreshFree (structuralHash : StructuralKey → Nat) (regular : Prop) (σ : Interner)
    (cache : FreeParamSummaryCache) : Prop :=
  FreshCache structuralHash regular (fun ty free (σ : Interner) => σ.store.ExactFree ty free) σ
    cache.graphIdentity cache.base cache.suffix

omit [DecidableEq K] in
theorem graphIdentity_alignWith (cache : DerivedGraphCache K V) (identity : Nat) :
    (cache.alignWith identity).graphIdentity = identity := by
  unfold DerivedGraphCache.alignWith
  split
  · assumption
  · rfl

theorem FreeParamSummaryCache.graphIdentity_alignWith (cache : FreeParamSummaryCache)
    (identity : Nat) : (cache.alignWith identity).graphIdentity = identity := by
  unfold FreeParamSummaryCache.alignWith
  split
  · assumption
  · rfl

variable {cache : DerivedGraphCache K V}

theorem FreshDerived.alignWith (h : FreshDerived structuralHash regular P σ cache) :
    FreshDerived structuralHash regular P σ (cache.alignWith σ.store.semanticGraphIdentity) := by
  unfold DerivedGraphCache.alignWith
  split
  · exact h
  · exact FreshCache.realign h

theorem FreshFree.alignWith {cache : FreeParamSummaryCache}
    (h : FreshFree structuralHash regular σ cache) :
    FreshFree structuralHash regular σ (cache.alignWith σ.store.semanticGraphIdentity) := by
  unfold FreeParamSummaryCache.alignWith
  split
  · exact h
  · exact FreshCache.reset σ

/-- What a lookup returns after it aligned the cache holds now. -/
theorem FreshDerived.get_alignWith (h : FreshDerived structuralHash regular P σ cache)
    (hP : ∀ key value, Monotonic structuralHash regular (P key value))
    (hσ : σ.Consed structuralHash regular) {key : K} {value : V}
    (hget : (cache.alignWith σ.store.semanticGraphIdentity).get key = some value) :
    P key value σ :=
  FreshCache.holds hP hσ h.alignWith (graphIdentity_alignWith _ _) hget

theorem FreshFree.get_alignWith {cache : FreeParamSummaryCache}
    (h : FreshFree structuralHash regular σ cache) (hσ : σ.Consed structuralHash regular)
    {ty : TypeId} {free : List TypeParamId}
    (hget : (cache.alignWith σ.store.semanticGraphIdentity).get ty = some free) :
    σ.store.ExactFree ty free :=
  FreshCache.holds (fun _ _ _ _ hσ _ hext hfree => hfree.extends hσ hext) hσ h.alignWith
    (FreeParamSummaryCache.graphIdentity_alignWith _ _) hget

/-- Only the core of the interner matters. -/
theorem FreshDerived.sameCore (hP : ∀ key value, Monotonic structuralHash regular (P key value))
    (hσ : σ.Consed structuralHash regular) (hcore : SameCore σ τ)
    (h : FreshDerived structuralHash regular P σ cache) :
    FreshDerived structuralHash regular P τ cache :=
  FreshCache.extend hP hσ h (.of_sameCore hσ hcore)

theorem FreshFree.sameCore (hσ : σ.Consed structuralHash regular) (hcore : SameCore σ τ)
    {cache : FreeParamSummaryCache} (h : FreshFree structuralHash regular σ cache) :
    FreshFree structuralHash regular τ cache :=
  FreshCache.extend (fun _ _ _ _ hσ _ hext hfree => hfree.extends hσ hext) hσ h
    (.of_sameCore hσ hcore)

theorem FreshDerived.insertBatch {entries : List (K × V)}
    (hentries : ∀ entry ∈ entries, P entry.1 entry.2 σ) :
    ∀ {cache : DerivedGraphCache K V}, cache.graphIdentity = σ.store.semanticGraphIdentity →
      FreshDerived structuralHash regular P σ cache →
      FreshDerived structuralHash regular P σ (cache.insertBatch entries) := by
  induction entries with
  | nil => exact fun _ h => h
  | cons entry entries ih =>
    intro cache hidentity h
    have hinsert : (cache.insert entry.1 entry.2).graphIdentity = σ.store.semanticGraphIdentity ∧
        FreshDerived structuralHash regular P σ (cache.insert entry.1 entry.2) := by
      unfold DerivedGraphCache.insert
      split
      · exact ⟨hidentity, h⟩
      · exact ⟨hidentity, FreshCache.insert h hidentity (hentries entry (by simp))⟩
    exact ih (fun e he => hentries e (List.mem_cons_of_mem _ he)) hinsert.1 hinsert.2

theorem FreshFree.insertBatch {entries : List (TypeId × List TypeParamId)}
    (hentries : ∀ entry ∈ entries, σ.store.ExactFree entry.1 entry.2) :
    ∀ {cache : FreeParamSummaryCache}, cache.graphIdentity = σ.store.semanticGraphIdentity →
      FreshFree structuralHash regular σ cache →
      FreshFree structuralHash regular σ (cache.insertBatch entries) := by
  induction entries with
  | nil => exact fun _ h => h
  | cons entry entries ih =>
    intro cache hidentity h
    have hinsert : (cache.insert entry.1 entry.2).graphIdentity = σ.store.semanticGraphIdentity ∧
        FreshFree structuralHash regular σ (cache.insert entry.1 entry.2) := by
      unfold FreeParamSummaryCache.insert
      split
      · exact ⟨hidentity, h⟩
      · exact ⟨hidentity, FreshCache.insert h hidentity (hentries entry (by simp))⟩
    exact ih (fun e he => hentries e (List.mem_cons_of_mem _ he)) hinsert.1 hinsert.2

end Caches

/-- Both summary caches are fresh. -/
structure SummariesFresh (structuralHash : StructuralKey → Nat) (regular : Prop) (σ : Interner) :
    Prop where
  free : FreshFree structuralHash regular σ σ.freeParamSummaries
  modes : FreshDerived structuralHash regular
    (fun ty mode (σ : Interner) => σ.store.ExactMode ty mode) σ σ.applicationKeyModes

theorem monotonic_exactMode (ty : TypeId) (mode : ApplicationKeyMode) :
    Monotonic structuralHash regular (fun σ => σ.store.ExactMode ty mode) :=
  fun _ _ _ _ hext hmode => hmode.extends hext

section Summaries

variable (h : SummariesFresh structuralHash regular σ) (hσ : σ.Consed structuralHash regular)
include h hσ

theorem SummariesFresh.freeParamSummary {ty : TypeId} {free : List TypeParamId}
    (hget : (σ.freeParamSummary ty).1 = some free) : σ.store.ExactFree ty free :=
  h.free.get_alignWith hσ hget

theorem SummariesFresh.applicationKeyMode {ty : TypeId} {mode : ApplicationKeyMode}
    (hget : (σ.applicationKeyMode ty).1 = some mode) : σ.store.ExactMode ty mode :=
  h.modes.get_alignWith monotonic_exactMode hσ hget

theorem SummariesFresh.cachedExact : σ.CachedExact := by
  intro ty summary hcached
  unfold cachedSummary at hcached
  split at hcached
  · rename_i free mode hfree hmode
    cases hcached
    exact ⟨h.freeParamSummary hσ hfree, h.applicationKeyMode hσ hmode⟩
  · cases hcached

end Summaries

/-- The summaries of a state with the same core. -/
theorem SummariesFresh.of_sameCore (hσ : σ.Consed structuralHash regular) (hcore : SameCore σ τ)
    (hfree : FreshFree structuralHash regular σ τ.freeParamSummaries)
    (hmodes : FreshDerived structuralHash regular
      (fun ty mode (σ : Interner) => σ.store.ExactMode ty mode) σ τ.applicationKeyModes) :
    SummariesFresh structuralHash regular τ :=
  ⟨hfree.sameCore hσ hcore, hmodes.sameCore monotonic_exactMode hσ hcore⟩

/-- **Computing a summary** returns the exact one and keeps the caches fresh. -/
theorem SummariesFresh.compute (h : SummariesFresh structuralHash regular σ)
    (hσ : σ.Consed structuralHash regular) {root : TypeId} {summary : ApplicationSummary}
    {σ' : Interner} (hrun : σ.computeApplicationSummaries root = some (summary, σ')) :
    σ.store.ExactFree root summary.freeParams ∧ σ.store.ExactMode root summary.keyMode ∧
      SummariesFresh structuralHash regular σ' := by
  have hcore : SameCore σ σ' := (sameCore_computeApplicationSummaries hrun :)
  obtain ⟨hfree, hmode, rfl | ⟨summaries, modes, hsummaries, hmodes, rfl⟩⟩ :=
    computeApplicationSummaries_exact (h.cachedExact hσ) hrun
  · exact ⟨hfree, hmode, .of_sameCore hσ hcore h.free.alignWith h.modes.alignWith⟩
  · refine ⟨hfree, hmode, .of_sameCore hσ hcore ?_ ?_⟩
    · exact FreshFree.insertBatch hsummaries
        (FreeParamSummaryCache.graphIdentity_alignWith _ _) h.free.alignWith.alignWith
    · exact FreshDerived.insertBatch hmodes (graphIdentity_alignWith _ _)
        h.modes.alignWith.alignWith

end Interner

end Typokat.Types
