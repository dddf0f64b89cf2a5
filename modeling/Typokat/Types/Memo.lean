import Typokat.Types.Clean

/-!
# The Memos of a Substitution Run

What a run of `Substitution::apply` remembers.  Its memos hold what walks on the current
graph found, each under some stack and some blocked set, and its summaries are exact.

## Main Results

- `MemoSound` : what the memos of a run promise
- `Ran` : what a run records of the visits it made
- `runSound_applicationSummary` : the summaries a run reads are exact
-/

namespace Typokat.Types

open Interner Option

variable {structuralHash : StructuralKey → Nat} {regular : Prop}

/-! ## §1 More fuel -/

section Fuel

theorem rewriteAll_mono {S A B : Type} {f g : A → S → Option (B × S)} {xs : List A}
    (h : ∀ x ∈ xs, ∀ s result, f x s = some result → g x s = some result) {s : S}
    {result : List B × S} (hf : rewriteAll f xs s = some result) :
    rewriteAll g xs s = some result := by
  induction xs generalizing s result with
  | nil => exact hf
  | cons x xs ih =>
    simp only [rewriteAll, bind_eq_bind, bind_eq_some_iff] at hf ⊢
    obtain ⟨first, hfirst, rest, hrest, hresult⟩ := hf
    exact ⟨first, h x (by simp) s first hfirst, rest,
      ih (fun x' hx' => h x' (List.mem_cons_of_mem _ hx')) hrest, hresult⟩

theorem walk_succ {n : Nat} : ∀ {map : FxHashMap TypeParamId TypeId} {ip : FxHashSet TypeId}
    {blocked : FxHashSet TypeParamId} {ty : TypeId} {σ : Interner} {result : Visit × Interner},
    walk structuralHash n map ip blocked ty σ = some result →
    walk structuralHash (n + 1) map ip blocked ty σ = some result := by
  induction n with
  | zero =>
    intro _ _ _ _ _ _ h
    cases h
  | succ n ih =>
    intro map ip blocked ty σ result h
    unfold walk at h ⊢
    split at h
    · rename_i hmap
      rw [if_pos hmap]
      exact h
    · rename_i hmap
      rw [if_neg hmap]
      simp only [bind_eq_bind, bind_eq_some_iff] at h ⊢
      obtain ⟨free, hfree, h⟩ := h
      refine ⟨free, hfree, ?_⟩
      split at h
      · rename_i hinert
        rw [if_pos hinert]
        exact h
      · rename_i hinert
        rw [if_neg hinert]
        split at h
        · rename_i hip
          rw [if_pos hip]
          exact h
        · rename_i hip
          rw [if_neg hip]
          simp only [bind_eq_some_iff] at h ⊢
          obtain ⟨row, hrow, asked, hask, h⟩ := h
          refine ⟨row, hrow, asked, hask, ?_⟩
          -- only the two lists are walked with the fuel that is left
          cases asked with
          | done result => exact h
          | defer => exact h
          | distribute param members =>
            simp only [bind_eq_some_iff] at h ⊢
            obtain ⟨visits, hvisits, h⟩ := h
            exact ⟨visits, rewriteAll_mono (fun _ _ _ _ hm => ih hm) hvisits, h⟩
          | rewrite arm =>
            simp only [bind_eq_some_iff] at h ⊢
            obtain ⟨visits, hvisits, h⟩ := h
            exact ⟨visits, rewriteAll_mono (fun _ _ _ _ hc => ih hc) hvisits, h⟩

variable {map : FxHashMap TypeParamId TypeId}

theorem walk_mono {n m : Nat} (hnm : n ≤ m) {ip : FxHashSet TypeId}
    {blocked : FxHashSet TypeParamId} {ty : TypeId} {σ : Interner} {result : Visit × Interner}
    (h : walk structuralHash n map ip blocked ty σ = some result) :
    walk structuralHash m map ip blocked ty σ = some result := by
  induction hnm with
  | refl => exact h
  | step _ ih => exact walk_succ ih

/-- The walk has one result, whatever its fuel. -/
theorem walk_unique {n m : Nat} {ip : FxHashSet TypeId} {blocked : FxHashSet TypeParamId}
    {ty : TypeId} {σ : Interner} {result result' : Visit × Interner}
    (h : walk structuralHash n map ip blocked ty σ = some result)
    (h' : walk structuralHash m map ip blocked ty σ = some result') : result = result' := by
  have hmax := walk_mono (le_max_left n m) h
  rw [walk_mono (le_max_right n m) h', some.injEq] at hmax
  exact hmax.symm

section Runs

variable {f g : Apply} {ty : TypeId} {sub : Substitution} {σ : Interner}
variable (hfg : ∀ ty state result, f ty state = some result → g ty state = some result)

include hfg

theorem substituteWith_mono {map : FxHashMap TypeParamId TypeId}
    {result : SubstitutionOutcome × Interner} (h : substituteWith f σ ty map = some result) :
    substituteWith g σ ty map = some result := by
  unfold substituteWith at h ⊢
  simp only [bind_eq_bind, bind_eq_some_iff] at h ⊢
  obtain ⟨keyed, hkeyed, h⟩ := h
  refine ⟨keyed, hkeyed, ?_⟩
  split at h
  · exact h
  · simp only [bind_eq_some_iff] at h ⊢
    obtain ⟨applied, happlied, h⟩ := h
    exact ⟨applied, hfg _ _ _ happlied, h⟩

theorem applyRow_mono {row : Row} {result : TypeId × Substitution × Interner}
    (h : applyRow structuralHash f ty row (sub, σ) = some result) :
    applyRow structuralHash g ty row (sub, σ) = some result := by
  unfold applyRow at h ⊢
  simp only [bind_eq_bind, bind_eq_some_iff] at h ⊢
  obtain ⟨asked, hask, h⟩ := h
  refine ⟨asked, hask, ?_⟩
  -- only the members and the children are walked
  cases asked with
  | done _ => exact h
  | defer => exact h
  | distribute param members =>
    have hmember : ∀ member ∈ members, ∀ state out, applyMember f ty param member state = some out →
        applyMember g ty param member state = some out := by
      intro member _ state out hmember
      unfold applyMember at hmember ⊢
      simp only [bind_eq_bind, bind_eq_some_iff] at hmember ⊢
      obtain ⟨outcome, houtcome, hmember⟩ := hmember
      exact ⟨outcome, substituteWith_mono hfg houtcome, hmember⟩
    simp only [bind_eq_some_iff] at h ⊢
    obtain ⟨rewritten, hrewritten, h⟩ := h
    exact ⟨rewritten, rewriteAll_mono hmember hrewritten, h⟩
  | rewrite arm =>
    simp only [applyArm, bind_eq_bind, bind_eq_some_iff] at h ⊢
    obtain ⟨rewritten, hrewritten, h⟩ := h
    exact ⟨rewritten, rewriteAll_mono (fun _ _ => hfg _) hrewritten, h⟩

end Runs

theorem apply_succ {n : Nat} : ∀ {ty : TypeId} {state : Substitution × Interner}
    {result : TypeId × Substitution × Interner},
    Substitution.apply structuralHash n ty state = some result →
    Substitution.apply structuralHash (n + 1) ty state = some result := by
  induction n with
  | zero =>
    intro _ _ _ h
    cases h
  | succ n ih =>
    intro ty state result h
    obtain ⟨sub, σ⟩ := state
    unfold Substitution.apply at h ⊢
    split at h
    · rename_i hmap
      rw [if_pos hmap]
      exact h
    · rename_i hmap
      rw [if_neg hmap]
      simp only [bind_eq_bind, bind_eq_some_iff] at h ⊢
      obtain ⟨free, hfree, h⟩ := h
      refine ⟨free, hfree, ?_⟩
      split at h
      · rename_i hinert
        rw [if_pos hinert]
        exact h
      · rename_i hinert
        rw [if_neg hinert]
        split at h
        · rename_i hip
          rw [if_pos hip]
          exact h
        · rename_i hip
          rw [if_neg hip]
          simp only [bind_eq_some_iff] at h ⊢
          obtain ⟨row, hrow, h⟩ := h
          refine ⟨row, hrow, ?_⟩
          split at h
          · exact h
          · split at h
            · exact h
            · simp only [bind_eq_some_iff] at h ⊢
              obtain ⟨framed, hframed, h⟩ := h
              exact ⟨framed, applyRow_mono (fun _ _ _ => ih) hframed, h⟩

theorem substitute_mono {n m : Nat} (hnm : n ≤ m) {σ : Interner} {ty : TypeId}
    {result : TypeId × Interner}
    (h : substitute structuralHash n σ ty map = some result) :
    substitute structuralHash m σ ty map = some result := by
  have hrun : ∀ ty state result, Substitution.apply structuralHash n ty state = some result →
      Substitution.apply structuralHash m ty state = some result := by
    intro ty state result h
    induction hnm with
    | refl => exact h
    | step _ ih => exact apply_succ ih
  unfold substitute substituteWithOutcome at h ⊢
  rw [map_eq_some_iff] at h ⊢
  obtain ⟨outcome, houtcome, h⟩ := h
  exact ⟨outcome, substituteWith_mono hrun houtcome, h⟩

end Fuel

/-! ## §2 The stack in an extension -/

section Extension

variable {σ τ : Interner} {map : FxHashMap TypeParamId TypeId} {ip : FxHashSet TypeId}
  {blocked : FxHashSet TypeParamId} {ty : TypeId}

theorem Store.FreeIn.extends (hσ : σ.Consed structuralHash regular) (hext : Extends σ τ)
    {p : TypeParamId} (h : σ.store.FreeIn ty p) : τ.store.FreeIn ty p := by
  induction h with
  | own hr hown =>
    rw [← ownParameters_extends hσ hext hr] at hown
    exact .own (hext.row hr) hown
  | child hedge _ hbinders ih =>
    obtain ⟨r, hr, _⟩ := id hedge
    rw [← nodeBinders_extends hext hr] at hbinders
    exact .child ((edge_extends hext hr).mpr hedge) ih hbinders

theorem Stack.extends (hσ : σ.Consed structuralHash regular) (hext : Extends σ τ)
    (hty : σ.store.Grounded ty) (h : Stack structuralHash σ map ip blocked ty) :
    Stack structuralHash τ map ip blocked ty := by
  refine ⟨fun a ha => ?_, fun a ha q hq hblocked hfree => ?_⟩
  · obtain ⟨row, hrow, hcan⟩ := h.canReenter a ha
    exact ⟨row, hext.row hrow, hcan⟩
  · have hreach := h.reaches a ha q hq hblocked ((freeIn_extends hσ hext hty q).mp hfree)
    refine Relation.TransGen.mono ?_ a ty hreach
    rintro parent child ⟨row, arm, b, hrow, hask, hc, hbinders, hfree⟩
    exact ⟨row, arm, b, hext.row hrow, dispatch_extends hσ hext hask, hc, hbinders,
      hfree.extends hσ hext⟩

end Extension

/-! ## §3 What the memos promise -/

/-- The key is that of `ty` under the blocked set. -/
def ContextKey (σ : Interner) (map : FxHashMap TypeParamId TypeId) (blocked : FxHashSet TypeParamId)
    (key : MemoKey) : Prop :=
  ∃ freeParams, σ.store.ExactFree key.1 freeParams ∧
    key.2 = freeParams.filter (fun id => decide (id ∈ map) && decide (id ∈ blocked))

/-- The memos of a run hold what walks on the current graph found. -/
structure MemoSound (structuralHash : StructuralKey → Nat) (σ : Interner) (sub : Substitution) :
    Prop where
  summaries : ∀ ty freeParams, sub.freeParamSummaries.lookup ty = some freeParams →
    σ.store.ExactFree ty freeParams
  completed : ∀ key result, sub.completed.lookup key = some result →
    ∃ n ip blocked, ContextKey σ sub.map blocked key ∧
      Walks structuralHash σ n sub.map ip blocked key.1 (.clean result)
  tainted : ∀ key entry, sub.tainted.lookup key = some entry →
    ∃ n ip blocked visit, ContextKey σ sub.map blocked key ∧
      Walks structuralHash σ n sub.map ip blocked key.1 visit ∧ visit.tainted = true ∧
      visit.result = entry.result ∧ visit.reentered ⊆ entry.reentered ∧
      ∀ a ∈ visit.visited, a ∈ entry.visited ∨
        (a = key.1 ∧ ∃ row, σ.store.row key.1 = some row ∧ row.canReenter = true)

section Memo

variable {σ τ : Interner} {map : FxHashMap TypeParamId TypeId}
  {blocked blocked' : FxHashSet TypeParamId} {key : MemoKey} {sub : Substitution}

theorem ContextKey.extends (hσ : σ.Consed structuralHash regular) (hext : Extends σ τ)
    (h : ContextKey σ map blocked key) : ContextKey τ map blocked key := by
  obtain ⟨freeParams, hfree, hkey⟩ := h
  exact ⟨freeParams, hfree.extends hσ hext, hkey⟩

/-- One key, one context. -/
theorem ContextKey.sameContext (h : ContextKey σ map blocked key)
    (h' : ContextKey σ map blocked' key) : SameContext σ map key.1 blocked blocked' := by
  obtain ⟨freeParams, hfree, hkey⟩ := h
  obtain ⟨freeParams', hfree', hkey'⟩ := h'
  obtain rfl := hfree.unique hfree'
  intro q hq hq'
  have hmem := (hfree.mem_iff q).mpr hq'
  have hiff : q ∈ key.2 ↔ q ∈ blocked := by simp [hkey, hmem, hq]
  have hiff' : q ∈ key.2 ↔ q ∈ blocked' := by simp [hkey', hmem, hq]
  exact hiff.symm.trans hiff'

theorem ContextKey.grounded (h : ContextKey σ map blocked key) : σ.store.Grounded key.1 := by
  obtain ⟨_, hfree, _⟩ := h
  exact hfree.grounded

theorem MemoSound.extends (hσ : σ.Consed structuralHash regular)
    (hτ : τ.Consed structuralHash regular) (hext : Extends σ τ)
    (h : MemoSound structuralHash σ sub) : MemoSound structuralHash τ sub where
  summaries := fun ty freeParams hget => (h.summaries ty freeParams hget).extends hσ hext
  completed := by
    intro key result hget
    obtain ⟨n, ip, blocked, hkey, hwalk⟩ := h.completed key result hget
    exact ⟨n, ip, blocked, hkey.extends hσ hext, hwalk.extends hσ hτ hext hkey.grounded⟩
  tainted := by
    intro key entry hget
    obtain ⟨n, ip, blocked, visit, hkey, hwalk, htaint, hresult, hreentered, hvisited⟩ :=
      h.tainted key entry hget
    refine ⟨n, ip, blocked, visit, hkey.extends hσ hext, hwalk.extends hσ hτ hext hkey.grounded,
      htaint, hresult, hreentered, fun a ha => ?_⟩
    rcases hvisited a ha with ha | ⟨heq, row, hrow, hcan⟩
    · exact .inl ha
    · exact .inr ⟨heq, row, hext.row hrow, hcan⟩

theorem memoSound_fresh (σ : Interner) (map : FxHashMap TypeParamId TypeId) :
    MemoSound structuralHash σ { map } where
  summaries := fun ty _ hget => nomatch (Finmap.lookup_empty ty).symm.trans hget
  completed := fun key _ hget => nomatch (Finmap.lookup_empty key).symm.trans hget
  tainted := fun key _ hget => nomatch (Finmap.lookup_empty key).symm.trans hget

theorem MemoSound.insertSummary {ty : TypeId} {freeParams : List TypeParamId}
    (h : MemoSound structuralHash σ sub) (hfree : σ.store.ExactFree ty freeParams) :
    MemoSound structuralHash σ
      { sub with freeParamSummaries := sub.freeParamSummaries.insert ty freeParams } where
  summaries := by
    intro other found hget
    by_cases heq : other = ty
    · subst heq
      rw [Finmap.lookup_insert, some.injEq] at hget
      exact hget ▸ hfree
    · rw [Finmap.lookup_insert_of_ne _ heq] at hget
      exact h.summaries other found hget
  completed := h.completed
  tainted := h.tainted

end Memo

/-! ## §4 Runs and visits -/

/-- A run is sound on the current state. -/
structure RunSound (structuralHash : StructuralKey → Nat) (regular : Prop) (σ : Interner)
    (sub : Substitution) : Prop where
  consed : σ.Consed structuralHash regular
  fresh : CachesFresh structuralHash regular σ
  memo : MemoSound structuralHash σ sub

/-- The parts of a run that a call gives back as it found them. -/
structure SameRun (sub sub' : Substitution) : Prop where
  map : sub'.map = sub.map
  inProgress : sub'.inProgress = sub.inProgress
  blocked : sub'.blocked = sub.blocked

/-- The run went on over the given visits: it knows whether one was tainted, and its frame
    records at least what they record. -/
structure Ran (sub sub' : Substitution) (visits : List Visit) : Prop extends SameRun sub sub' where
  epoch_le : sub.cycleEpoch ≤ sub'.cycleEpoch
  tainted : sub'.cycleEpoch = sub.cycleEpoch ↔ visits.any Visit.tainted = false
  reentered_le : sub.frameReentered ⊆ sub'.frameReentered
  visited_le : sub.frameVisited ⊆ sub'.frameVisited
  reentered : ∀ visit ∈ visits, visit.reentered ⊆ sub'.frameReentered
  visited : ∀ visit ∈ visits, visit.visited ⊆ sub'.frameVisited

theorem SameRun.refl (sub : Substitution) : SameRun sub sub := ⟨rfl, rfl, rfl⟩

theorem SameRun.trans {sub₁ sub₂ sub₃ : Substitution} (h₁ : SameRun sub₁ sub₂)
    (h₂ : SameRun sub₂ sub₃) : SameRun sub₁ sub₃ :=
  ⟨h₂.map.trans h₁.map, h₂.inProgress.trans h₁.inProgress, h₂.blocked.trans h₁.blocked⟩

/-- Nothing was tainted and the records are as before. -/
theorem Ran.of_clean {sub sub' : Substitution} {visits : List Visit} (h : SameRun sub sub')
    (hepoch : sub'.cycleEpoch = sub.cycleEpoch) (hreentered : sub'.frameReentered = sub.frameReentered)
    (hvisited : sub.frameVisited ⊆ sub'.frameVisited)
    (hclean : ∀ visit ∈ visits, ∃ result, visit = .clean result) : Ran sub sub' visits where
  toSameRun := h
  epoch_le := hepoch.ge
  tainted := by
    refine ⟨fun _ => List.any_eq_false.mpr (fun visit hv => ?_), fun _ => hepoch⟩
    obtain ⟨result, rfl⟩ := hclean visit hv
    exact Bool.false_ne_true
  reentered_le := hreentered.ge
  visited_le := hvisited
  reentered := by
    intro visit hv
    obtain ⟨result, rfl⟩ := hclean visit hv
    exact Finset.empty_subset _
  visited := by
    intro visit hv
    obtain ⟨result, rfl⟩ := hclean visit hv
    exact Finset.empty_subset _

theorem Ran.nil (sub : Substitution) : Ran sub sub [] :=
  .of_clean (.refl sub) rfl rfl subset_rfl (by simp)

/-- One more visit at the front. -/
theorem Ran.cons {sub₁ sub₂ sub₃ : Substitution} {visit : Visit} {visits : List Visit}
    (h₁ : Ran sub₁ sub₂ [visit]) (h₂ : Ran sub₂ sub₃ visits) : Ran sub₁ sub₃ (visit :: visits) where
  toSameRun := h₁.toSameRun.trans h₂.toSameRun
  epoch_le := h₁.epoch_le.trans h₂.epoch_le
  tainted := by
    have ht₁ := h₁.tainted
    have ht₂ := h₂.tainted
    have hle₁ := h₁.epoch_le
    have hle₂ := h₂.epoch_le
    simp only [List.any_cons, List.any_nil, Bool.or_false, Bool.or_eq_false_iff] at ht₁ ⊢
    rw [← ht₁, ← ht₂]
    omega
  reentered_le := h₁.reentered_le.trans h₂.reentered_le
  visited_le := h₁.visited_le.trans h₂.visited_le
  reentered := by
    intro v hv
    rcases List.mem_cons.mp hv with rfl | hv
    · exact (h₁.reentered v (by simp)).trans h₂.reentered_le
    · exact h₂.reentered v hv
  visited := by
    intro v hv
    rcases List.mem_cons.mp hv with rfl | hv
    · exact (h₁.visited v (by simp)).trans h₂.visited_le
    · exact h₂.visited v hv

/-! ## §5 Summaries of a run -/

section Summaries

variable {σ σ' : Interner} {sub sub' : Substitution} {ty : TypeId}

section Memo

variable (h : RunSound structuralHash regular σ sub)
include h

/-- **A summary of the run** is exact and changes caches only. -/
theorem runSound_applicationSummary {summary : ApplicationSummary}
    (hrun : sub.applicationSummary σ ty = some (summary, sub', σ')) :
    σ'.store.ExactFree ty summary.freeParams ∧ σ'.store.ExactMode ty summary.keyMode ∧
      RunSound structuralHash regular σ' sub' ∧
      sub' = { sub with
        freeParamSummaries := sub.freeParamSummaries.insert ty summary.freeParams } := by
  have hcore : SameCore σ σ' := (sameCore_applicationSummary hrun :)
  have hσ' : σ'.Consed structuralHash regular := (Grows.of_sameCore h.consed hcore).consed h.consed
  unfold Substitution.applicationSummary at hrun
  dsimp only at hrun
  -- the two lookups align their caches before anything is computed
  generalize hσ₁ : (if ty ∈ sub.freeParamSummaries then σ else (σ.freeParamSummary ty).2) = σ₁ at hrun
  have hcore₁ : SameCore σ σ₁ := by
    rw [← hσ₁]
    split
    · exact .refl σ
    · exact sameCore_freeParamSummary σ ty
  have hσ₁' : σ₁.Consed structuralHash regular := (Grows.of_sameCore h.consed hcore₁).consed h.consed
  have hfresh₁ : CachesFresh structuralHash regular σ₁ := by
    refine h.fresh.of_summaries h.consed hcore₁ (.of_sameCore h.consed hcore₁ ?_ ?_) ?_
    · rw [← hσ₁]
      split
      · exact h.fresh.free
      · exact h.fresh.free.alignWith
    · rw [← hσ₁]
      split
      · exact h.fresh.modes
      · exact h.fresh.modes
    · rw [← hσ₁]
      split <;> rfl
  have hcore₂ := sameCore_applicationKeyMode σ₁ ty
  have hσ₂ := (Grows.of_sameCore hσ₁' hcore₂).consed hσ₁'
  have hfresh₂ : CachesFresh structuralHash regular (σ₁.applicationKeyMode ty).2 :=
    hfresh₁.of_summaries hσ₁' hcore₂
      (.of_sameCore hσ₁' hcore₂ hfresh₁.free hfresh₁.modes.alignWith) rfl
  split at hrun
  · rename_i freeParams keyMode hcached hmode
    cases hrun
    have hstore : (σ₁.applicationKeyMode ty).2.store = σ.store := (hcore₁.trans hcore₂).store_eq
    have hfree : σ.store.ExactFree ty freeParams := by
      cases hlocal : sub.freeParamSummaries.lookup ty with
      | some found =>
        rw [hlocal, some_or] at hcached
        cases hcached
        exact h.memo.summaries ty freeParams hlocal
      | none =>
        rw [hlocal, none_or] at hcached
        exact h.fresh.freeParamSummary h.consed hcached
    have hmode' : σ₁.store.ExactMode ty keyMode := hfresh₁.applicationKeyMode hσ₁' hmode
    refine ⟨hstore ▸ hfree, hcore₂.store_eq ▸ hmode', ⟨hσ', hfresh₂, ?_⟩, rfl⟩
    exact (h.memo.extends h.consed hσ' hcore.extends).insertSummary (hstore ▸ hfree)
  · simp only [bind_eq_bind, bind_eq_some_iff, some.injEq, Prod.mk.injEq] at hrun
    obtain ⟨⟨computed, σ₃⟩, hcompute, rfl, rfl, rfl⟩ := hrun
    have hcore₃ : SameCore (σ₁.applicationKeyMode ty).2 σ₃ :=
      (sameCore_computeApplicationSummaries hcompute :)
    obtain ⟨hfree, hmode, hsummaries⟩ := hfresh₂.toSummariesFresh.compute hσ₂ hcompute
    rw [← hcore₃.store_eq] at hfree hmode
    refine ⟨hfree, hmode, ⟨hσ', hfresh₂.of_summaries hσ₂ hcore₃ hsummaries ?_, ?_⟩, rfl⟩
    · exact cleanResults_computeApplicationSummaries hcompute
    · exact (h.memo.extends h.consed hσ' hcore.extends).insertSummary hfree

theorem runSound_freeParamSummary {freeParams : List TypeParamId}
    (hrun : sub.freeParamSummary σ ty = some (freeParams, sub', σ')) :
    σ'.store.ExactFree ty freeParams ∧ RunSound structuralHash regular σ' sub' ∧
      sub'.freeParamSummaries.lookup ty = some freeParams ∧
      sub' = { sub with freeParamSummaries := sub'.freeParamSummaries } := by
  unfold Substitution.freeParamSummary at hrun
  split at hrun
  · rename_i summary hlocal
    cases hrun
    exact ⟨h.memo.summaries ty freeParams hlocal, h, hlocal, rfl⟩
  · simp only [bind_eq_bind, bind_eq_some_iff, some.injEq, Prod.mk.injEq] at hrun
    obtain ⟨⟨summary, sub₁, σ₁⟩, hsummary, rfl, rfl, rfl⟩ := hrun
    obtain ⟨hfree, _, hsound, hsub⟩ := runSound_applicationSummary h hsummary
    refine ⟨hfree, ⟨hsound.consed, hsound.fresh, hsound.memo.insertSummary hfree⟩,
      Finmap.lookup_insert _, ?_⟩
    rw [hsub]

/-- A summary of the run is computed for every grounded id. -/
theorem applicationSummary_isSome (hty : σ.store.Grounded ty) :
    ∃ result, sub.applicationSummary σ ty = some result := by
  unfold Substitution.applicationSummary
  dsimp only
  split
  · exact ⟨_, rfl⟩
  · generalize hσ₁ : (if ty ∈ sub.freeParamSummaries then σ else (σ.freeParamSummary ty).2) = σ₁
    have hcore₁ : SameCore σ σ₁ := by
      rw [← hσ₁]
      split
      · exact .refl σ
      · exact sameCore_freeParamSummary σ ty
    have hσ₁' := (Grows.of_sameCore h.consed hcore₁).consed h.consed
    have hfresh₁ : SummariesFresh structuralHash regular σ₁ := by
      refine .of_sameCore h.consed hcore₁ ?_ ?_
      · rw [← hσ₁]
        split
        · exact h.fresh.free
        · exact h.fresh.free.alignWith
      · rw [← hσ₁]
        split
        · exact h.fresh.modes
        · exact h.fresh.modes
    have hcore₂ := sameCore_applicationKeyMode σ₁ ty
    have hσ₂ := (Grows.of_sameCore hσ₁' hcore₂).consed hσ₁'
    have hfresh₂ : SummariesFresh structuralHash regular (σ₁.applicationKeyMode ty).2 :=
      .of_sameCore hσ₁' hcore₂ hfresh₁.free hfresh₁.modes.alignWith
    have hty₂ : (σ₁.applicationKeyMode ty).2.store.Grounded ty := by
      rw [(hcore₁.trans hcore₂).store_eq]
      exact hty
    obtain ⟨computed, hcompute⟩ :=
      computeApplicationSummaries_isSome (hfresh₂.cachedExact hσ₂) hσ₂.wellFormed hty₂
    rw [hcompute]
    exact ⟨_, rfl⟩

theorem freeParamSummary_isSome (hty : σ.store.Grounded ty) :
    ∃ result, sub.freeParamSummary σ ty = some result := by
  unfold Substitution.freeParamSummary
  split
  · exact ⟨_, rfl⟩
  · obtain ⟨result, hsummary⟩ := applicationSummary_isSome h hty
    rw [hsummary]
    exact ⟨_, rfl⟩

end Memo

end Summaries

end Typokat.Types
