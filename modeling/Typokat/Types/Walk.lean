import Typokat.Types.Caches

/-!
# The Memo-less Walk

A substitution without memos and without caches: it decides every free-set test from
scratch, and reports with each result what a memo would have to remember of it, which is
whether a live id was re-entered, which ones, and which ids it walked while tainted.

On a state that already has every row it interns, the walk is a relation on a fixed graph
(`Walks`), and this is where it is reasoned about.

## Main Definitions

- `walk` : the walk, threading the interner
- `Walks` : the walk on a state that it does not change
- `walks_of_walk`, `walk_of_walks` : the two agree on extensions of the final state
-/

namespace Typokat.Types

open Interner Option FxHashMap

/-! ## §1 What a walk reports -/

/-- The result of a walk at an id, and the stack cut it depends on. -/
structure Visit where
  result : TypeId
  tainted : Bool
  /-- live ids that were re-entered -/
  reentered : FxHashSet TypeId
  /-- ids of the frames that were tainted -/
  visited : FxHashSet TypeId
  deriving DecidableEq

namespace Visit

/-- A result that depends on no live id. -/
def clean (result : TypeId) : Visit := ⟨result, false, ∅, ∅⟩

/-- A live id is returned as it is. -/
def cut (ty : TypeId) : Visit := ⟨ty, true, {ty}, ∅⟩

/-- Only the taint of a run of its own is seen from outside. -/
def forget (visit : Visit) : Visit := ⟨visit.result, visit.tainted, ∅, ∅⟩

/-- The frame of `ty` closes over the visits of its children. -/
def close (ty : TypeId) (canReenter : Bool) (children : List Visit) (result : TypeId) : Visit :=
  if children.any tainted then
    { result
      tainted := true
      reentered := (children.foldr (fun (visit : Visit) acc => visit.reentered ∪ acc) ∅).erase ty
      visited := children.foldr (fun (visit : Visit) acc => visit.visited ∪ acc) ∅
        ∪ (if canReenter then {ty} else ∅) }
  else clean result

end Visit

/-! ## §2 The walk -/

/-- The interner with every derived cache emptied. -/
def Interner.uncached (σ : Interner) : Interner :=
  { σ with
    freeParamSummaries := .new σ.store.semanticGraphIdentity
    applicationKeyModes := .new σ.store.semanticGraphIdentity
    cleanApplicationResults := .new σ.store.semanticGraphIdentity }

/-- The free parameters of an id, computed from scratch. -/
def Interner.scratchFreeParams (σ : Interner) (ty : TypeId) : Option (List TypeParamId) :=
  (σ.uncached.computeApplicationSummaries ty).map (fun result => result.1.freeParams)

/-- The stack below an arm. -/
def Arm.enter (arm : Arm) (ty : TypeId) (inProgress : FxHashSet TypeId) : FxHashSet TypeId :=
  if arm.tracked then insert ty inProgress else inProgress

variable (structuralHash : StructuralKey → Nat)

/-- The walk without memos. -/
def walk : Nat → FxHashMap TypeParamId TypeId → FxHashSet TypeId → FxHashSet TypeParamId →
    TypeId → Interner → Option (Visit × Interner)
  | 0, _, _, _, _, _ => none
  | fuel + 1, map, inProgress, blocked, ty, σ =>
    if FxHashMap.isEmpty map then some (.clean ty, σ)
    else do
      let freeParams ← σ.scratchFreeParams ty
      if Substitution.allInert map blocked freeParams then return (.clean ty, σ)
      if ty ∈ inProgress then return (.cut ty, σ)
      let row ← σ.store.row ty
      match ← dispatch structuralHash map blocked σ ty row with
      | .done result => return (.clean result, σ)
      | .defer =>
        let (result, σ) := σ.internInstantiation structuralHash ty (FxHashMap.sortedEntries map)
        return (.clean result, σ)
      | .distribute param members =>
        let (visits, σ) ← rewriteAll
          (fun member => walk fuel (map.insert param member) ∅ ∅ ty) members σ
        let (result, σ) ← σ.union structuralHash (visits.map Visit.result)
        return (.close ty row.canReenter (visits.map Visit.forget) result, σ)
      | .rewrite arm =>
        let (visits, σ) ← rewriteAll
          (walk fuel map (arm.enter ty inProgress) (blocked ∪ arm.binders.toFinset))
          arm.children σ
        let (result, σ) ← arm.finish ty (visits.map Visit.result) σ
        return (.close ty row.canReenter visits result, σ)

/-! ## §3 The walk on a fixed graph -/

/-- Some mapped parameter is free below `ty` and unblocked. -/
def Live (σ : Interner) (map : FxHashMap TypeParamId TypeId) (blocked : FxHashSet TypeParamId)
    (ty : TypeId) : Prop :=
  ∃ q, q ∈ map ∧ q ∉ blocked ∧ σ.store.FreeIn ty q

/-- A walk at one id, over what its children do. -/
abbrev WalkRel := FxHashMap TypeParamId TypeId → FxHashSet TypeId → FxHashSet TypeParamId →
  TypeId → Visit → Prop

/-- One level of a walk that finds every row it interns. -/
inductive WalkStep (σ : Interner) (below : WalkRel) : WalkRel
  | empty {map ip blocked ty} : map = ∅ → WalkStep σ below map ip blocked ty (.clean ty)
  | inert {map ip blocked ty} : map ≠ ∅ → ¬Live σ map blocked ty →
      WalkStep σ below map ip blocked ty (.clean ty)
  | cut {map ip blocked ty} : Live σ map blocked ty → ty ∈ ip →
      WalkStep σ below map ip blocked ty (.cut ty)
  | done {map ip blocked ty row result} : Live σ map blocked ty → ty ∉ ip →
      σ.store.row ty = some row →
      dispatch structuralHash map blocked σ ty row = some (.done result) →
      WalkStep σ below map ip blocked ty (.clean result)
  | defer {map ip blocked ty row result} : Live σ map blocked ty → ty ∉ ip →
      σ.store.row ty = some row →
      dispatch structuralHash map blocked σ ty row = some .defer →
      σ.internInstantiation structuralHash ty (FxHashMap.sortedEntries map) = (result, σ) →
      WalkStep σ below map ip blocked ty (.clean result)
  | distribute {map ip blocked ty row param members visits result} :
      Live σ map blocked ty → ty ∉ ip → σ.store.row ty = some row →
      dispatch structuralHash map blocked σ ty row = some (.distribute param members) →
      List.Forall₂ (fun member => below (map.insert param member) ∅ ∅ ty) members visits →
      σ.union structuralHash (visits.map Visit.result) = some (result, σ) →
      WalkStep σ below map ip blocked ty
        (.close ty row.canReenter (visits.map Visit.forget) result)
  | rewrite {map ip blocked ty row arm visits result} :
      Live σ map blocked ty → ty ∉ ip → σ.store.row ty = some row →
      dispatch structuralHash map blocked σ ty row = some (.rewrite arm) →
      List.Forall₂ (below map (arm.enter ty ip) (blocked ∪ arm.binders.toFinset))
        arm.children visits →
      arm.finish ty (visits.map Visit.result) σ = some (result, σ) →
      WalkStep σ below map ip blocked ty (.close ty row.canReenter visits result)

/-- A walk of bounded depth that finds every row it interns. -/
def Walks (σ : Interner) : Nat → WalkRel
  | 0 => fun _ _ _ _ _ => False
  | n + 1 => WalkStep structuralHash σ (Walks σ n)

variable {structuralHash}

/-! ## §4 Free-set tests from scratch -/

section Scratch

variable {regular : Prop} {σ τ : Interner}

theorem cachedSummary_uncached (σ : Interner) (ty : TypeId) :
    σ.uncached.cachedSummary ty = none := by
  simp [cachedSummary, Interner.uncached, Interner.freeParamSummary, FreeParamSummaryCache.new,
    FreeParamSummaryCache.alignWith, FreeParamSummaryCache.get]

theorem cachedExact_uncached (σ : Interner) : σ.uncached.CachedExact := by
  intro ty summary hcached
  rw [cachedSummary_uncached] at hcached
  cases hcached

theorem scratchFreeParams_exact {ty : TypeId} {free : List TypeParamId}
    (h : σ.scratchFreeParams ty = some free) : σ.store.ExactFree ty free := by
  obtain ⟨⟨summary, σ'⟩, hrun, rfl⟩ := map_eq_some_iff.mp h
  exact (computeApplicationSummaries_exact (cachedExact_uncached σ) hrun).1

theorem scratchFreeParams_of_exact (hwf : σ.store.WellFormed) {ty : TypeId}
    {free : List TypeParamId} (h : σ.store.ExactFree ty free) :
    σ.scratchFreeParams ty = some free := by
  obtain ⟨result, hrun⟩ :=
    computeApplicationSummaries_isSome (cachedExact_uncached σ) hwf h.grounded
  have hscratch : σ.scratchFreeParams ty = some result.1.freeParams := by
    rw [Interner.scratchFreeParams, hrun]
    rfl
  rw [hscratch, (scratchFreeParams_exact hscratch).unique h]

theorem scratchFreeParams_of_grounded (hwf : σ.store.WellFormed) {ty : TypeId}
    (h : σ.store.Grounded ty) : ∃ free, σ.scratchFreeParams ty = some free := by
  obtain ⟨result, hrun⟩ := computeApplicationSummaries_isSome (cachedExact_uncached σ) hwf h
  exact ⟨result.1.freeParams, by rw [Interner.scratchFreeParams, hrun]; rfl⟩

theorem stable_scratchFreeParams (ty : TypeId) :
    Stable structuralHash regular (fun σ => σ.scratchFreeParams ty) :=
  fun _ _ _ hσ hτ h hext =>
    scratchFreeParams_of_exact hτ.wellFormed ((scratchFreeParams_exact h).extends hσ hext)

theorem allInert_iff {ty : TypeId} {free : List TypeParamId} (h : σ.store.ExactFree ty free)
    (map : FxHashMap TypeParamId TypeId) (blocked : FxHashSet TypeParamId) :
    Substitution.allInert map blocked free = true ↔ ¬Live σ map blocked ty := by
  unfold Substitution.allInert Live
  simp only [List.all_eq_true, Bool.or_eq_true, decide_eq_true_eq, Bool.not_eq_true',
    decide_eq_false_iff_not, not_exists, not_and, h.mem_iff]
  exact ⟨fun hall q hq hblocked hfree => (hall q hfree).elim hblocked (fun hmem => hmem hq),
    fun hall q hfree => or_iff_not_imp_left.mpr (fun hblocked hmem => hall q hmem hblocked hfree)⟩

end Scratch

/-! ## §5 The arms that rewrite children -/

section Arms

variable {σ : Interner} {map : FxHashMap TypeParamId TypeId} {blocked : FxHashSet TypeParamId}
  {ty : TypeId} {row : Row} {arm : Arm}

/-- An arm follows children of its row, blocks its binders and tracks what can re-enter. -/
theorem dispatch_rewrite (h : dispatch structuralHash map blocked σ ty row = some (.rewrite arm)) :
    (∀ child ∈ arm.children, child ∈ row.applyChildren) ∧ arm.binders = row.binders ∧
      arm.tracked = row.canReenter := by
  cases row <;> simp only [dispatch, some.injEq, reduceCtorEq, Dispatch.rewrite.injEq] at h
  case conditional body =>
    rcases dispatchConditional_cases h with h | h
    · cases h
    · cases h
      exact ⟨fun _ hc => hc, rfl, rfl⟩
  case mapped body =>
    rcases dispatchMapped_cases h with h | ⟨param, members, h⟩ | h
    · cases h
    · cases h
    · cases h
      exact ⟨fun _ hc => hc, rfl, rfl⟩
  case declared body =>
    obtain ⟨recipe, _, h⟩ := bind_eq_some_iff.mp h
    cases h
    refine ⟨fun child hc => ?_, rfl, rfl⟩
    -- a child is the value of one of the mapper's entries
    obtain ⟨p, _, hlookup⟩ := List.mem_filterMap.mp hc
    obtain ⟨before, after, hmapper, _⟩ := List.lookup_eq_some_iff.mp hlookup
    refine List.mem_map.mpr ⟨(p, child), ?_, rfl⟩
    rw [hmapper]
    simp
  all_goals
    subst h
    exact ⟨fun _ hc => hc, rfl, rfl⟩

end Arms

/-! ## §6 The walk can be replayed -/

section Replay

variable {regular : Prop}

theorem interning_rewriteAll {A B : Type} {f : A → Interner → Option (B × Interner)}
    (hf : ∀ x, Interning structuralHash regular (f x)) (xs : List A) :
    Interning structuralHash regular (rewriteAll f xs) := by
  induction xs with
  | nil => exact interning_pure []
  | cons x xs ih =>
    have hrest : ∀ y, Interning structuralHash regular (fun σ =>
        (rewriteAll f xs σ).bind (fun result => some (y :: result.1, result.2))) :=
      fun y => ih.bind (fun ys => interning_pure (y :: ys))
    exact (hf x).bind hrest

theorem stable_row (ty : TypeId) : Stable structuralHash regular (fun σ => σ.store.row ty) :=
  fun _ _ _ _ _ hrow hext => hext.row hrow

theorem stable_dispatch (map : FxHashMap TypeParamId TypeId) (blocked : FxHashSet TypeParamId)
    (ty : TypeId) (row : Row) :
    Stable structuralHash regular (fun σ => dispatch structuralHash map blocked σ ty row) :=
  fun _ _ _ hσ _ hask hext => dispatch_extends hσ hext hask

/-- **The walk only adds rows, and on any extension of its final state it adds none.** -/
theorem interning_walk (fuel : Nat) :
    ∀ (map : FxHashMap TypeParamId TypeId) (ip : FxHashSet TypeId)
      (blocked : FxHashSet TypeParamId) (ty : TypeId),
      Interning structuralHash regular (walk structuralHash fuel map ip blocked ty) := by
  induction fuel with
  | zero => exact fun _ _ _ _ => interning_none
  | succ fuel ih =>
    intro map ip blocked ty
    show Interning structuralHash regular
      (fun σ => walk structuralHash (fuel + 1) map ip blocked ty σ)
    simp only [walk, bind_eq_bind]
    by_cases hmap : isEmpty map = true
    · simp only [hmap, if_true]
      exact interning_pure _
    · simp only [hmap]
      refine Interning.bind_stable (stable_scratchFreeParams ty) (fun _ free _ => ?_)
      by_cases hinert : Substitution.allInert map blocked free = true
      · simp only [hinert, if_true]
        exact interning_pure _
      · simp only [hinert]
        by_cases hip : ty ∈ ip
        · simp only [hip, if_true]
          exact interning_pure _
        · simp only [hip, if_false]
          refine Interning.bind_stable (stable_row ty) (fun _ row _ => ?_)
          refine Interning.bind_stable (stable_dispatch map blocked ty row) (fun σ asked hask => ?_)
          cases asked with
          | done result => exact interning_pure _
          | defer => exact (interning_defer ty _).bind (fun result => interning_pure _)
          | distribute param members =>
            have hall := interning_rewriteAll (fun member => ih (map.insert param member) ∅ ∅ ty)
              members
            exact hall.bind (fun visits =>
              (interning_union (visits.map Visit.result)).bind (fun result =>
                interning_pure (Visit.close ty row.canReenter (visits.map Visit.forget) result)))
          | rewrite arm =>
            have hall := interning_rewriteAll
              (ih map (arm.enter ty ip) (blocked ∪ arm.binders.toFinset)) arm.children
            exact hall.bind (fun visits =>
              (interning_finish hask (visits.map Visit.result)).bind (fun result =>
                interning_pure (Visit.close ty row.canReenter visits result)))

/-- What the elements of a list do, seen from an extension of the final state. -/
theorem forall₂_of_rewriteAll {A B : Type} {f : A → Interner → Option (B × Interner)}
    (hf : ∀ x, Interning structuralHash regular (f x)) {τ : Interner} {Q : A → B → Prop}
    (hQ : ∀ x y σ σ', σ.Consed structuralHash regular → f x σ = some (y, σ') → Extends σ' τ →
      Q x y) {xs : List A} :
    ∀ {σ σ' : Interner} {ys : List B}, σ.Consed structuralHash regular →
      rewriteAll f xs σ = some (ys, σ') → Extends σ' τ → List.Forall₂ Q xs ys := by
  induction xs with
  | nil =>
    intro σ σ' ys _ h _
    cases h
    exact .nil
  | cons x xs ih =>
    intro σ σ' ys hσ h hext
    simp only [rewriteAll, bind_eq_bind, bind_eq_some_iff, some.injEq, Prod.mk.injEq] at h
    obtain ⟨⟨y, σ₁⟩, hx, ⟨ys', σ₂⟩, hxs, rfl, rfl⟩ := h
    have hgrow : Grows structuralHash regular σ σ₁ := .of_interning (hf x) hσ hx
    have hrest : Grows structuralHash regular σ₁ σ₂ :=
      .of_interning (interning_rewriteAll hf xs) (hgrow.consed hσ) hxs
    exact .cons (hQ x y σ σ₁ hσ hx (hrest.grown.trans hext)) (ih (hgrow.consed hσ) hxs hext)

/-- On a state that has all rows, a list is rewritten without a change. -/
theorem rewriteAll_of_forall₂ {A B : Type} {f : A → Interner → Option (B × Interner)} {τ : Interner}
    {xs : List A} {ys : List B} (h : List.Forall₂ (fun x y => f x τ = some (y, τ)) xs ys) :
    rewriteAll f xs τ = some (ys, τ) := by
  induction h with
  | nil => rfl
  | cons hx _ ih =>
    simp only [rewriteAll, bind_eq_bind, hx, bind_some]
    rw [ih]
    rfl

/-- **A walk is a walk on any extension of its final state.** -/
theorem walks_of_walk {τ : Interner} (hτ : τ.Consed structuralHash regular) {fuel : Nat} :
    ∀ {map : FxHashMap TypeParamId TypeId} {ip : FxHashSet TypeId}
      {blocked : FxHashSet TypeParamId} {ty : TypeId} {visit : Visit} {σ σ' : Interner},
      σ.Consed structuralHash regular →
      walk structuralHash fuel map ip blocked ty σ = some (visit, σ') → Extends σ' τ →
      Walks structuralHash τ fuel map ip blocked ty visit := by
  induction fuel with
  | zero =>
    intro map ip blocked ty visit σ σ' _ h _
    cases h
  | succ fuel ih =>
    intro map ip blocked ty visit σ σ' hσ h hext
    have hext₀ : Extends σ τ := (Grows.of_interning (interning_walk _ _ _ _ _) hσ h).grown.trans hext
    unfold walk at h
    split at h
    · rename_i hmap
      cases h
      exact WalkStep.empty ((isEmpty_iff _).mp hmap)
    · rename_i hmap
      have hmap' : map ≠ ∅ := fun heq => hmap ((isEmpty_iff _).mpr heq)
      simp only [bind_eq_bind, bind_eq_some_iff] at h
      obtain ⟨free, hfree, h⟩ := h
      -- inertness is read off the free parameters, which are exact
      have hexact := (scratchFreeParams_exact hfree).extends hσ hext₀
      split at h
      · rename_i hinert
        cases h
        exact WalkStep.inert hmap' ((allInert_iff hexact map blocked).mp hinert)
      · rename_i hinert
        have hlive : Live τ map blocked ty := by
          by_contra hdead
          exact hinert ((allInert_iff hexact map blocked).mpr hdead)
        split at h
        · rename_i hip
          cases h
          exact WalkStep.cut hlive hip
        · rename_i hip
          obtain ⟨row, hrow, asked, hask, h⟩ := by
            simpa only [bind_eq_some_iff] using h
          have hrow' := hext₀.row hrow
          have hask' := dispatch_extends hσ hext₀ hask
          cases asked with
          | done result =>
            cases h
            exact WalkStep.done hlive hip hrow' hask'
          | defer =>
            cases h
            refine WalkStep.defer hlive hip hrow' hask' ?_
            exact some.inj ((interning_defer ty _ σ hσ _ rfl).replay τ hτ hext)
          | distribute param members =>
            simp only [bind_eq_some_iff] at h
            obtain ⟨⟨visits, σ₁⟩, hmembers, ⟨result, σ₂⟩, hunion, h⟩ := h
            cases h
            have hgrow : Grows structuralHash regular σ σ₁ :=
              .of_interning (interning_rewriteAll (fun _ => interning_walk fuel _ _ _ _) members)
                hσ hmembers
            obtain ⟨hgrow₁, _, hreplay, _⟩ := interning_union _ σ₁ (hgrow.consed hσ) _ hunion
            refine WalkStep.distribute hlive hip hrow' hask' ?_ (hreplay τ hτ hext)
            exact forall₂_of_rewriteAll (fun _ => interning_walk fuel _ _ _ _)
              (fun _ _ _ _ hσ hrun hext => ih hσ hrun hext) hσ hmembers (hgrow₁.grown.trans hext)
          | rewrite arm =>
            simp only [bind_eq_some_iff] at h
            obtain ⟨⟨visits, σ₁⟩, hchildren, ⟨result, σ₂⟩, hfinish, h⟩ := h
            cases h
            have hgrow : Grows structuralHash regular σ σ₁ :=
              .of_interning (interning_rewriteAll (fun _ => interning_walk fuel _ _ _ _) _)
                hσ hchildren
            obtain ⟨hgrow₁, _, hreplay, _⟩ := interning_finish hask _ σ₁ (hgrow.consed hσ) _ hfinish
            refine WalkStep.rewrite hlive hip hrow' hask' ?_ (hreplay τ hτ hext)
            exact forall₂_of_rewriteAll (fun _ => interning_walk fuel _ _ _ _)
              (fun _ _ _ _ hσ hrun hext => ih hσ hrun hext) hσ hchildren (hgrow₁.grown.trans hext)

/-- **On a state that has all rows the walk runs and changes nothing.** -/
theorem walk_of_walks {τ : Interner} (hτ : τ.Consed structuralHash regular) {n : Nat} :
    ∀ {map : FxHashMap TypeParamId TypeId} {ip : FxHashSet TypeId}
      {blocked : FxHashSet TypeParamId} {ty : TypeId} {visit : Visit}, τ.store.Grounded ty →
      Walks structuralHash τ n map ip blocked ty visit →
      walk structuralHash n map ip blocked ty τ = some (visit, τ) := by
  induction n with
  | zero => exact fun _ h => h.elim
  | succ n ih =>
    intro map ip blocked ty visit hty h
    obtain ⟨free, hfree⟩ := scratchFreeParams_of_grounded hτ.wellFormed hty
    have hinert := allInert_iff (scratchFreeParams_exact hfree) map blocked
    -- a live parameter is mapped, so the map is not empty
    have hmap : Live τ map blocked ty → isEmpty map = false := by
      rintro ⟨q, hq, _⟩
      rw [Bool.eq_false_iff]
      intro hempty
      rw [(isEmpty_iff _).mp hempty] at hq
      exact Finmap.notMem_empty hq
    unfold walk
    cases h with
    | empty hempty => rw [if_pos ((isEmpty_iff _).mpr hempty)]
    | inert hne hdead =>
      rw [if_neg (fun h => hne ((isEmpty_iff _).mp h)), hfree]
      simp only [bind_eq_bind, bind_some, hinert.mpr hdead, if_true]
      rfl
    | cut hlive hip =>
      rw [hmap hlive, hfree]
      simp [hinert, hlive, hip]
    | done hlive hip hrow hask =>
      rw [hmap hlive, hfree]
      simp [hinert, hlive, hip, hrow, hask]
    | defer hlive hip hrow hask hmade =>
      rw [hmap hlive, hfree]
      simp [hinert, hlive, hip, hrow, hask, hmade]
    | @distribute _ _ _ _ row param members visits result hlive hip hrow hask hmembers hunion =>
      have hall : rewriteAll (fun member => walk structuralHash n (map.insert param member) ∅ ∅ ty)
          members τ = some (visits, τ) :=
        rewriteAll_of_forall₂ (hmembers.imp (fun _ _ hm => ih hty hm))
      rw [hmap hlive, hfree]
      simp [hinert, hlive, hip, hrow, hask, hall, hunion]
    | @rewrite _ _ _ _ row arm visits result hlive hip hrow hask hchildren hfinish =>
      have hground : ∀ child ∈ arm.children, τ.store.Grounded child :=
        fun child hc => hty.child ⟨row, hrow, (dispatch_rewrite hask).1 child hc⟩
      have hall : rewriteAll (walk structuralHash n map (arm.enter ty ip)
          (blocked ∪ arm.binders.toFinset)) arm.children τ = some (visits, τ) := by
        have hboth := (List.forall₂_and_left _ _).mpr ⟨hground, hchildren⟩
        exact rewriteAll_of_forall₂ (hboth.imp (fun _ _ hc => ih hc.1 hc.2))
      rw [hmap hlive, hfree]
      simp [hinert, hlive, hip, hrow, hask, hall, hfinish]

end Replay

end Typokat.Types
