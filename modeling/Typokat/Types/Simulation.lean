import Typokat.Types.Memo

/-!
# The Memoized Run Against the Walk

A run of `Substitution::apply` returns the id the walk without memos returns and leaves
the same rows, and it returns whenever that walk does.  Where a lookup in a memo or in the
durable results succeeds, the walk that found the entry may be reused.

## Main Results

- `simulated_substituteWith` : a root substitution does what the walk does
- `simulates_apply` : the run does what the walk does
- `returns_apply` : the run returns when the walk does
-/

namespace Typokat.Types

open Interner Finset Substitution Option FxHashMap

variable {structuralHash : StructuralKey → Nat} {regular : Prop}

/-! ## §1 The simulation -/

/-- What the run did is what the walk does from the same state. -/
def Simulated (structuralHash : StructuralKey → Nat) (regular : Prop) {V R : Type}
    (w : Nat → Interner → Option (V × Interner)) (result : V → R) (seen : V → List Visit)
    (sub : Substitution) (σ : Interner) (out : R × Substitution × Interner) : Prop :=
  ∃ n v ρ, w n σ = some (v, ρ) ∧ result v = out.1 ∧ Ran sub out.2.1 (seen v) ∧
    Alike ρ out.2.2 ∧ RunSound structuralHash regular out.2.2 out.2.1 ∧
    Grows structuralHash regular σ out.2.2

/-- The walk with the memos does what the walk without them does. -/
def Simulates (structuralHash : StructuralKey → Nat) (regular : Prop) (apply : Apply) : Prop :=
  ∀ ty sub σ out, RunSound structuralHash regular σ sub →
    Stack structuralHash σ sub.map sub.inProgress sub.blocked ty → apply ty (sub, σ) = some out →
    Simulated structuralHash regular
      (fun n => walk structuralHash n sub.map sub.inProgress sub.blocked ty) Visit.result
      (fun visit => [visit]) sub σ out

theorem walk_alike {σ τ ρ : Interner} (hσ : σ.Consed structuralHash regular)
    (hτ : τ.Consed structuralHash regular) (h : Alike σ τ) {n : Nat}
    {map : FxHashMap TypeParamId TypeId} {ip : FxHashSet TypeId} {blocked : FxHashSet TypeParamId}
    {ty : TypeId} {visit : Visit}
    (hwalk : walk structuralHash n map ip blocked ty σ = some (visit, ρ)) :
    ∃ ρ', walk structuralHash n map ip blocked ty τ = some (visit, ρ') ∧ Alike ρ ρ' :=
  (interning_walk n map ip blocked ty σ hσ _ hwalk).alike τ hτ h

/-- **A list of calls** does what the list of walks does. -/
theorem simulated_rewriteAll {A : Type}
    {f : A → Substitution × Interner → Option (TypeId × Substitution × Interner)}
    {w : Nat → A → Interner → Option (Visit × Interner)} {view : Visit → Visit}
    (hw : ∀ n x, Interning structuralHash regular (w n x))
    (hmono : ∀ {n m x σ result}, n ≤ m → w n x σ = some result → w m x σ = some result)
    {sub₀ : Substitution} {σ₀ : Interner} {xs : List A}
    (hf : ∀ x ∈ xs, ∀ sub σ out, SameRun sub₀ sub → Extends σ₀ σ →
      RunSound structuralHash regular σ sub → f x (sub, σ) = some out →
      Simulated structuralHash regular (fun n => w n x) Visit.result (fun visit => [view visit])
        sub σ out) :
    ∀ {sub σ out}, SameRun sub₀ sub → Extends σ₀ σ → RunSound structuralHash regular σ sub →
      rewriteAll f xs (sub, σ) = some out →
      Simulated structuralHash regular (fun n => rewriteAll (w n) xs) (List.map Visit.result)
        (List.map view) sub σ out := by
  induction xs with
  | nil =>
    intro sub σ out _ _ hsound hrun
    cases hrun
    exact ⟨0, [], σ, rfl, rfl, .nil sub, .refl σ, hsound, .refl σ⟩
  | cons x xs ih =>
    intro sub σ out hsame hext hsound hrun
    simp only [rewriteAll, bind_eq_bind, bind_eq_some_iff, some.injEq] at hrun
    obtain ⟨⟨r, sub₁, σ₁⟩, hfirst, ⟨rs, sub₂, σ₂⟩, hrest, rfl⟩ := hrun
    obtain ⟨n, visit, ρ₁, hwalk, hresult, hran, halike, hsound₁, hgrow₁⟩ :=
      hf x (by simp) sub σ _ hsame hext hsound hfirst
    obtain ⟨m, visits, ρ₂, hwalks, hresults, hrans, halike₂, hsound₂, hgrow₂⟩ :=
      ih (fun x' hx' => hf x' (List.mem_cons_of_mem _ hx')) (hsame.trans hran.toSameRun)
        (hext.trans hgrow₁.grown) hsound₁ hrest
    -- the rest of the walk starts from a state alike to the one the run went on from
    have hρ₁ : ρ₁.Consed structuralHash regular :=
      (hw n x σ hsound.consed _ hwalk).grows.consed hsound.consed
    obtain ⟨ρ₃, hwalks', halike₃⟩ :=
      (interning_rewriteAll (hw m) xs σ₁ hsound₁.consed _ hwalks).alike ρ₁ hρ₁ halike.symm
    refine ⟨max n m, visit :: visits, ρ₃, ?_, ?_, hran.cons hrans, halike₃.symm.trans halike₂,
      hsound₂, hgrow₁.trans hgrow₂⟩
    · simp only [rewriteAll, bind_eq_bind, bind_eq_some_iff, some.injEq]
      exact ⟨(visit, ρ₁), hmono (le_max_left n m) hwalk, (visits, ρ₃),
        rewriteAll_mono (fun _ _ _ _ h => hmono (le_max_right n m) h) hwalks', rfl⟩
    · exact congrArg₂ List.cons hresult hresults

/-! ## §2 Runs of their own -/

/-- The durable result under a key, if there is a key. -/
def lookUp (cleanKey : Option CleanApplicationKey) (σ : Interner) : Option TypeId × Interner :=
  match cleanKey with
  | some key => σ.cleanApplicationResult key
  | none => (none, σ)

/-- File a clean result under its key, if there is a key. -/
def fileUnder (cleanKey : Option CleanApplicationKey) (result : TypeId) (σ : Interner) : Interner :=
  match cleanKey with
  | some key => σ.publishCleanApplicationResult key result
  | none => σ

theorem substituteWith_eq (apply : Apply) (σ : Interner) (ty : TypeId)
    (map : FxHashMap TypeParamId TypeId) :
    substituteWith apply σ ty map = (cleanApplicationKey { map } σ ty).bind
      (fun keyed => match (lookUp keyed.1 keyed.2.2).1 with
        | some result => some (.cycleClean result, (lookUp keyed.1 keyed.2.2).2)
        | none => (apply ty (keyed.2.1, (lookUp keyed.1 keyed.2.2).2)).bind (fun applied =>
          if applied.2.1.cycleEpoch = 0 then
            some (.cycleClean applied.1, fileUnder keyed.1 applied.1 applied.2.2)
          else some (.cycleTainted applied.1, applied.2.2))) := rfl

theorem sameCore_lookUp (cleanKey : Option CleanApplicationKey) (σ : Interner) :
    SameCore σ (lookUp cleanKey σ).2 := by
  cases cleanKey with
  | none => exact .refl σ
  | some key => exact sameCore_cleanApplicationResult σ key

theorem sameCore_fileUnder (cleanKey : Option CleanApplicationKey) (result : TypeId) (σ : Interner) :
    SameCore σ (fileUnder cleanKey result σ) := by
  cases cleanKey with
  | none => exact .refl σ
  | some key => exact sameCore_publishCleanApplicationResult σ key result

section Roots

variable {σ σ' : Interner} {sub : Substitution} {ty : TypeId}
  {map : FxHashMap TypeParamId TypeId} {cleanKey : Option CleanApplicationKey}

theorem cachesFresh_lookUp (hσ : σ.Consed structuralHash regular)
    (h : CachesFresh structuralHash regular σ) :
    CachesFresh structuralHash regular (lookUp cleanKey σ).2 := by
  cases cleanKey with
  | none => exact h
  | some key => exact h.lookup hσ key

/-- The key is the one of `ty` under the map, if there is one. -/
def KeyFor (σ : Interner) (ty : TypeId) (map : FxHashMap TypeParamId TypeId)
    (cleanKey : Option CleanApplicationKey) : Prop :=
  ∀ key, cleanKey = some key → ∃ freeParams, σ.store.ExactFree ty freeParams ∧
    σ.store.ExactMode ty key.mode ∧ key = ⟨ty, key.mode, cleanArguments key.mode freeParams map⟩

theorem KeyFor.extends {τ : Interner} (hσ : σ.Consed structuralHash regular) (hext : Extends σ τ)
    (h : KeyFor σ ty map cleanKey) : KeyFor τ ty map cleanKey := by
  intro key hkey
  obtain ⟨freeParams, hfree, hmode, heq⟩ := h key hkey
  exact ⟨freeParams, hfree.extends hσ hext, hmode.extends hext, heq⟩

/-- A durable result was found by a walk. -/
theorem walks_of_lookUp (hσ : σ.Consed structuralHash regular)
    (hfresh : CachesFresh structuralHash regular σ) (hkey : KeyFor σ ty map cleanKey)
    {result : TypeId} (hget : (lookUp cleanKey σ).1 = some result) :
    σ.store.Grounded ty ∧ ∃ n, Walks structuralHash σ n map ∅ ∅ ty (.clean result) := by
  cases cleanKey with
  | none => cases hget
  | some key =>
    obtain ⟨freeParams, hfree, _, heq⟩ := hkey key rfl
    have hentry : CleanEntry structuralHash key result σ := hfresh.cleanApplicationResult hσ hget
    rw [heq] at hentry
    obtain ⟨freeParams', hfree', _, hwalks⟩ := hentry
    obtain rfl := hfree.unique hfree'
    exact ⟨hfree.grounded, hwalks map rfl⟩

/-- A clean result may be filed under its key. -/
theorem cachesFresh_fileUnder (hσ : σ.Consed structuralHash regular)
    (hfresh : CachesFresh structuralHash regular σ) (hkey : KeyFor σ ty map cleanKey) {n : Nat}
    {result : TypeId} (hwalk : Walks structuralHash σ n map ∅ ∅ ty (.clean result)) :
    CachesFresh structuralHash regular (fileUnder cleanKey result σ) := by
  cases cleanKey with
  | none => exact hfresh
  | some key =>
    obtain ⟨freeParams, hfree, hmode, heq⟩ := hkey key rfl
    have hentry := cleanEntry_of_walks hfree hmode hwalk
    rw [← heq] at hentry
    exact hfresh.publish hσ hentry

/-- **The durable key** is computed from exact summaries. -/
theorem runSound_cleanApplicationKey (hσ : σ.Consed structuralHash regular)
    (hfresh : CachesFresh structuralHash regular σ)
    (hrun : cleanApplicationKey { map } σ ty = some (cleanKey, sub, σ')) :
    RunSound structuralHash regular σ' sub ∧
      sub = { map, freeParamSummaries := sub.freeParamSummaries } ∧ KeyFor σ' ty map cleanKey := by
  have hstart : RunSound structuralHash regular σ { map } := ⟨hσ, hfresh, memoSound_fresh σ map⟩
  unfold cleanApplicationKey at hrun
  split at hrun
  · cases hrun
    exact ⟨hstart, rfl, fun key hkey => by cases hkey⟩
  · simp only [bind_eq_bind, bind_eq_some_iff] at hrun
    obtain ⟨⟨summary, sub₁, σ₁⟩, hsummary, hrun⟩ := hrun
    obtain ⟨hfree, hmode, hsound, hsub⟩ := runSound_applicationSummary hstart hsummary
    have hsub' : sub₁ = { map, freeParamSummaries := sub₁.freeParamSummaries } := by rw [hsub]
    split at hrun
    · cases hrun
      exact ⟨hsound, hsub', fun key hkey => by cases hkey⟩
    · simp only [pure, some.injEq, Prod.mk.injEq] at hrun
      obtain ⟨hkey, rfl, rfl⟩ := hrun
      refine ⟨hsound, hsub', fun key hsome => ⟨summary.freeParams, hfree, ?_⟩⟩
      -- the arguments are those of the run's own map
      have hfrom : CleanApplicationKey.fromSortedArguments ty summary.keyMode
          (cleanArguments summary.keyMode summary.freeParams sub₁.map) = some key := by
        rw [← hsome, ← hkey]
        rfl
      rw [hsub'] at hfrom
      unfold CleanApplicationKey.fromSortedArguments at hfrom
      split at hfrom
      · cases hfrom
      · cases hfrom
        exact ⟨hmode, rfl⟩

/-- A visit without taint is clean. -/
theorem eq_clean_of_walks {n : Nat} {ip : FxHashSet TypeId} {blocked : FxHashSet TypeParamId}
    {visit : Visit} (h : Walks structuralHash σ n map ip blocked ty visit)
    (hclean : visit.tainted = false) : visit = .clean visit.result := by
  obtain ⟨hreentered, hvisited⟩ := h.record.2.2 hclean
  obtain ⟨result, tainted, reentered, visited⟩ := visit
  cases hclean
  cases hreentered
  cases hvisited
  rfl

/-- **A root substitution** does what the walk does, whether or not it finds a durable
    result. -/
theorem simulated_substituteWith {apply : Apply} (happly : Simulates structuralHash regular apply)
    {outcome : SubstitutionOutcome} (hσ : σ.Consed structuralHash regular)
    (hfresh : CachesFresh structuralHash regular σ)
    (hrun : substituteWith apply σ ty map = some (outcome, σ')) :
    ∃ n visit ρ, walk structuralHash n map ∅ ∅ ty σ = some (visit, ρ) ∧
      visit.result = outcome.result ∧ visit.tainted = outcome.isTainted ∧ Alike ρ σ' ∧
      CachesFresh structuralHash regular σ' ∧ Grows structuralHash regular σ σ' := by
  rw [substituteWith_eq, bind_eq_some_iff] at hrun
  obtain ⟨⟨cleanKey, sub, σ₁⟩, hkeyed, hrun⟩ := hrun
  obtain ⟨hsound₁, hsub, hkey⟩ := runSound_cleanApplicationKey hσ hfresh hkeyed
  have hcore₁ : SameCore σ σ₁ := (sameCore_cleanApplicationKey hkeyed :)
  have hcore₂ := sameCore_lookUp cleanKey σ₁
  have hfresh₂ := @cachesFresh_lookUp _ _ _ cleanKey hsound₁.consed hsound₁.fresh
  cases hcached : (lookUp cleanKey σ₁).1 with
  | some result =>
    rw [hcached] at hrun
    cases hrun
    -- the durable result was found by a walk under the same key
    obtain ⟨hground, n, hwalk⟩ := walks_of_lookUp hsound₁.consed hsound₁.fresh hkey hcached
    obtain ⟨ρ, hrun, hρ⟩ := walk_alike hsound₁.consed hσ (Alike.of_sameCore hcore₁).symm
      (walk_of_walks hsound₁.consed hground hwalk)
    exact ⟨n, .clean result, ρ, hrun, rfl, rfl, hρ.symm.trans (.of_sameCore hcore₂), hfresh₂,
      .of_sameCore hσ (hcore₁.trans hcore₂)⟩
  | none =>
    rw [hcached] at hrun
    obtain ⟨⟨result, after, σ₃⟩, happlied, hrun⟩ := bind_eq_some_iff.mp hrun
    generalize hσ₂ : (lookUp cleanKey σ₁).2 = σ₂ at happlied hcore₂ hfresh₂
    have hcore := hcore₁.trans hcore₂
    have hgrow : Grows structuralHash regular σ σ₂ := .of_sameCore hσ hcore
    have hconsed₂ := hgrow.consed hσ
    have hsound₂ : RunSound structuralHash regular σ₂ sub :=
      ⟨hconsed₂, hfresh₂, hsound₁.memo.extends hsound₁.consed hconsed₂ hcore₂.extends⟩
    have hstack : Stack structuralHash σ₂ sub.map sub.inProgress sub.blocked ty := by
      rw [hsub]
      exact stack_empty
    obtain ⟨n, visit, ρ₂, hwalk, hresult, hran, halike₂, hsound₃, hgrow₃⟩ :=
      happly ty sub σ₂ _ hsound₂ hstack happlied
    rw [hsub] at hwalk
    obtain ⟨ρ, hwalk', hρ⟩ := walk_alike hconsed₂ hσ (Alike.of_sameCore hcore).symm hwalk
    have htaint : after.cycleEpoch = 0 ↔ visit.tainted = false := by
      have h := hran.tainted
      rw [hsub] at h
      simpa using h
    have hρ' : Alike ρ σ₃ := hρ.symm.trans halike₂
    split at hrun
    · rename_i hclean
      cases hrun
      have hwalks := walks_of_walk hsound₃.consed hσ hwalk' hρ'.extends
      rw [eq_clean_of_walks hwalks (htaint.mp hclean), hresult] at hwalks
      have hcore₃ := sameCore_fileUnder cleanKey result σ₃
      have hkey₃ := hkey.extends hsound₁.consed (hcore₂.extends.trans hgrow₃.grown)
      exact ⟨n, visit, ρ, hwalk', hresult, htaint.mp hclean, hρ'.trans (.of_sameCore hcore₃),
        cachesFresh_fileUnder hsound₃.consed hsound₃.fresh hkey₃ hwalks,
        (hgrow.trans hgrow₃).trans (.of_sameCore hsound₃.consed hcore₃)⟩
    · rename_i htainted
      cases hrun
      have hvisit : visit.tainted = true := by
        by_contra hne
        exact htainted (htaint.mpr (by simpa using hne))
      exact ⟨n, visit, ρ, hwalk', hresult, hvisit, hρ', hsound₃.fresh, hgrow.trans hgrow₃⟩

end Roots

/-! ## §3 Frames -/

section Frames

variable {σ σ' : Interner} {sub sub' : Substitution} {ty : TypeId} {row : Row}

/-- The walk at a live id that is not in progress, once the row is dispatched. -/
theorem walk_of_row {map : FxHashMap TypeParamId TypeId} {ip : FxHashSet TypeId}
    {blocked : FxHashSet TypeParamId} {freeParams : List TypeParamId}
    (hwf : σ.store.WellFormed) (hfree : σ.store.ExactFree ty freeParams)
    (hmap : isEmpty map = false)
    (hinert : allInert map blocked freeParams = false) (hip : ty ∉ ip)
    (hrow : σ.store.row ty = some row) (n : Nat) :
    walk structuralHash (n + 1) map ip blocked ty σ
      = (dispatch structuralHash map blocked σ ty row).bind (fun asked =>
        match asked with
        | .done result => some (.clean result, σ)
        | .defer =>
          let made := σ.internInstantiation structuralHash ty (sortedEntries map)
          some (.clean made.1, made.2)
        | .distribute param members =>
          (rewriteAll (fun member => walk structuralHash n (map.insert param member) ∅ ∅ ty)
            members σ).bind (fun walked =>
              (walked.2.union structuralHash (walked.1.map Visit.result)).bind (fun made =>
                some (.close ty row.canReenter (walked.1.map Visit.forget) made.1, made.2)))
        | .rewrite arm =>
          (rewriteAll (walk structuralHash n map (arm.enter ty ip)
            (blocked ∪ arm.binders.toFinset)) arm.children σ).bind (fun walked =>
              (arm.finish ty (walked.1.map Visit.result) walked.2).bind (fun made =>
                some (.close ty row.canReenter walked.1 made.1, made.2)))) := by
  rw [walk, if_neg (by simp [hmap]), scratchFreeParams_of_exact hwf hfree]
  simp only [bind_eq_bind, bind_some, hinert, hip, hrow, if_false]
  rfl

/-- **A frame** does what the walk does at its id; its record is that of its children. -/
def FrameSimulated (structuralHash : StructuralKey → Nat) (regular : Prop) (ty : TypeId)
    (row : Row) (sub : Substitution) (σ : Interner) (out : TypeId × Substitution × Interner) :
    Prop :=
  ∃ n visits ρ, walk structuralHash n sub.map sub.inProgress sub.blocked ty σ
      = some (.close ty row.canReenter visits out.1, ρ) ∧
    Ran sub out.2.1 visits ∧ Alike ρ out.2.2 ∧
    RunSound structuralHash regular out.2.2 out.2.1 ∧ Grows structuralHash regular σ out.2.2

/-- One member of a distributed map is a run of its own; only its taint is seen. -/
theorem simulated_applyMember {apply : Apply} (happly : Simulates structuralHash regular apply)
    {param : TypeParamId} {member : TypeId} {out : TypeId × Substitution × Interner}
    (hsound : RunSound structuralHash regular σ sub)
    (hrun : applyMember apply ty param member (sub, σ) = some out) :
    Simulated structuralHash regular
      (fun n => walk structuralHash n (sub.map.insert param member) ∅ ∅ ty) Visit.result
      (fun visit => [visit.forget]) sub σ out := by
  simp only [applyMember, bind_eq_bind, bind_eq_some_iff, some.injEq] at hrun
  obtain ⟨⟨outcome, σ₁⟩, hsub, rfl⟩ := hrun
  obtain ⟨n, visit, ρ, hwalk, hresult, htaint, halike, hfresh, hgrow⟩ :=
    simulated_substituteWith happly hsound.consed hsound.fresh hsub
  have hσ₁ := hgrow.consed hsound.consed
  have hmemo := hsound.memo.extends hsound.consed hσ₁ hgrow.grown
  refine ⟨n, visit, ρ, hwalk, hresult, ?_, halike, ⟨hσ₁, hfresh, ?_⟩, hgrow⟩
  · -- the epoch of the outer run moves exactly when the inner run was tainted
    split
    · rename_i htainted
      exact
        { map := rfl
          inProgress := rfl
          blocked := rfl
          epoch_le := Nat.le_succ _
          tainted := by simp [Visit.forget, htaint, htainted]
          reentered_le := subset_rfl
          visited_le := subset_rfl
          reentered := by simp [Visit.forget]
          visited := by simp [Visit.forget] }
    · rename_i htainted
      refine .of_clean (.refl sub) rfl rfl subset_rfl (fun v hv => ⟨visit.result, ?_⟩)
      rw [List.mem_singleton.mp hv]
      simp [Visit.forget, Visit.clean, htaint, htainted]
  · dsimp only
    split
    · exact ⟨hmemo.summaries, hmemo.completed, hmemo.tainted⟩
    · exact hmemo

/-- **The children of an arm** are walked with its id in progress and its binders blocked. -/
theorem simulated_children {apply : Apply} (happly : Simulates structuralHash regular apply)
    {arm : Arm} {entered : Substitution} {out : List TypeId × Substitution × Interner}
    (hsound : RunSound structuralHash regular σ entered)
    (hrow : σ.store.row ty = some row) (hty : σ.store.Grounded ty)
    {map : FxHashMap TypeParamId TypeId} {blocked : FxHashSet TypeParamId} {ip : FxHashSet TypeId}
    (hask : dispatch structuralHash map blocked σ ty row = some (.rewrite arm))
    (hstack : Stack structuralHash σ map ip blocked ty) (hmap : entered.map = map)
    (hip : entered.inProgress = arm.enter ty ip)
    (hblocked : entered.blocked = blocked ∪ arm.binders.toFinset)
    (hrun : rewriteAll apply arm.children (entered, σ) = some out) :
    Simulated structuralHash regular
      (fun n => rewriteAll (walk structuralHash n map (arm.enter ty ip)
        (blocked ∪ arm.binders.toFinset)) arm.children)
      (List.map Visit.result) (List.map id) entered σ out := by
  refine simulated_rewriteAll (fun n x => interning_walk n _ _ _ x) (fun hnm h => walk_mono hnm h)
    (fun child hc sub₁ σ₁ out₁ hsame hext hsound₁ hchild => ?_) (.refl entered) (.refl σ) hsound hrun
  -- the stack of the child was built on the graph the frame started from
  have hground : σ.store.Grounded child := hty.child ⟨row, hrow, (dispatch_rewrite hask).1 child hc⟩
  have hstack₁ := (hstack.child hrow hask hc).extends hsound.consed hext hground
  have hcall := happly child sub₁ σ₁ out₁ hsound₁
  rw [hsame.map, hsame.inProgress, hsame.blocked, hmap, hip, hblocked] at hcall
  exact hcall hstack₁ hchild

theorem enter_erase {arm : Arm} {ip : FxHashSet TypeId} (hip : ty ∉ ip) :
    (if arm.tracked then (arm.enter ty ip).erase ty else arm.enter ty ip) = ip := by
  unfold Arm.enter
  split
  · exact erase_insert hip
  · rfl

section Frames

variable {apply : Apply} (happly : Simulates structuralHash regular apply)
  {freeParams : List TypeParamId} {out : TypeId × Substitution × Interner}
  (hsound : RunSound structuralHash regular σ sub) (hfree : σ.store.ExactFree ty freeParams)
  (hmap : isEmpty sub.map = false)
  (hinert : allInert sub.map sub.blocked freeParams = false)
  (hip : ty ∉ sub.inProgress)
  (hstack : Stack structuralHash σ sub.map sub.inProgress sub.blocked ty)
  (hrow : σ.store.row ty = some row)
include happly hsound hfree hmap hinert hip hstack hrow

/-- **An arm** does what the walk does. -/
theorem frameSimulated_applyArm {arm : Arm}
    (hask : dispatch structuralHash sub.map sub.blocked σ ty row = some (.rewrite arm))
    (hrun : applyArm apply ty arm (sub, σ) = some out) :
    FrameSimulated structuralHash regular ty row sub σ out := by
  simp only [applyArm, bind_eq_bind, bind_eq_some_iff, some.injEq] at hrun
  obtain ⟨⟨new, sub₁, σ₁⟩, hchildren, ⟨result, σ₂⟩, hfinish, rfl⟩ := hrun
  have hentered : RunSound structuralHash regular σ { sub with
      inProgress := if arm.tracked then insert ty sub.inProgress else sub.inProgress
      blocked := sub.blocked ∪ arm.binders.toFinset \ sub.blocked } :=
    ⟨hsound.consed, hsound.fresh, hsound.memo.summaries, hsound.memo.completed,
      hsound.memo.tainted⟩
  obtain ⟨n, visits, ρ₁, hwalks, hresults, hran, halike₁, hsound₁, hgrow₁⟩ :=
    simulated_children happly hentered hrow hfree.grounded hask hstack rfl rfl
      (union_sdiff_self_eq_union) hchildren
  have hρ₁ : ρ₁.Consed structuralHash regular := by
    have hgrow : Grows structuralHash regular σ ρ₁ := .of_interning
      (interning_rewriteAll (fun x => interning_walk n _ _ _ x) arm.children) hsound.consed hwalks
    exact hgrow.consed hsound.consed
  obtain ⟨hgrow₂, hcaches₂, _, hreplay⟩ := interning_finish hask new σ₁ hsound₁.consed _ hfinish
  obtain ⟨ρ₂, hfinish', halike₂⟩ := hreplay ρ₁ hρ₁ halike₁.symm
  have hσ₂ := hgrow₂.consed hsound₁.consed
  rw [List.map_id] at hran
  refine ⟨n + 1, visits, ρ₂, ?_, ?_, halike₂.symm, ⟨hσ₂, ?_, ?_⟩, hgrow₁.trans hgrow₂⟩
  · rw [walk_of_row hsound.consed.wellFormed hfree hmap hinert hip hrow, hask]
    simp only [bind_some, hwalks, hresults, hfinish']
  · exact
      { map := hran.map
        inProgress := by
          show (if arm.tracked then sub₁.inProgress.erase ty else sub₁.inProgress) = sub.inProgress
          rw [hran.inProgress]
          exact enter_erase hip
        blocked := by
          show sub₁.blocked \ (arm.binders.toFinset \ sub.blocked) = sub.blocked
          rw [hran.blocked]
          show (sub.blocked ∪ arm.binders.toFinset \ sub.blocked)
            \ (arm.binders.toFinset \ sub.blocked) = sub.blocked
          exact union_sdiff_cancel_right disjoint_sdiff
        epoch_le := hran.epoch_le
        tainted := hran.tainted
        reentered_le := hran.reentered_le
        visited_le := hran.visited_le
        reentered := hran.reentered
        visited := hran.visited }
  · exact hsound₁.fresh.extend hsound₁.consed hgrow₂ hcaches₂
  · have hmemo := hsound₁.memo.extends hsound₁.consed hσ₂ hgrow₂.grown
    exact ⟨hmemo.summaries, hmemo.completed, hmemo.tainted⟩

/-- **The body of a frame** does what the walk does. -/
theorem frameSimulated_applyRow (hrun : applyRow structuralHash apply ty row (sub, σ) = some out) :
    FrameSimulated structuralHash regular ty row sub σ out := by
  simp only [applyRow, bind_eq_bind, bind_eq_some_iff] at hrun
  obtain ⟨asked, hask, hrun⟩ := hrun
  have hwalk := @walk_of_row structuralHash _ _ _ _ _ _ _ hsound.consed.wellFormed hfree hmap
    hinert hip hrow
  cases asked with
  | done result =>
    cases hrun
    refine ⟨1, [], σ, ?_, .nil sub, .refl σ, hsound, .refl σ⟩
    rw [hwalk, hask]
    rfl
  | defer =>
    cases hrun
    have hreplay := interning_defer ty (sortedEntries sub.map) σ hsound.consed _ rfl
    have hconsed := hreplay.grows.consed hsound.consed
    refine ⟨1, [], _, ?_, .nil sub, .refl _, ⟨hconsed, ?_, ?_⟩, hreplay.grows⟩
    · rw [hwalk, hask]
      rfl
    · exact hsound.fresh.extend hsound.consed hreplay.grows hreplay.caches
    · exact hsound.memo.extends hsound.consed hconsed hreplay.grows.grown
  | distribute param members =>
    simp only [bind_eq_some_iff] at hrun
    obtain ⟨⟨perMember, sub₁, σ₁⟩, hmembers, ⟨result, σ₂⟩, hunion, hrun⟩ := hrun
    cases hrun
    obtain ⟨n, visits, ρ₁, hwalks, hresults, hran, halike₁, hsound₁, hgrow₁⟩ :=
      simulated_rewriteAll
        (w := fun n member => walk structuralHash n (sub.map.insert param member) ∅ ∅ ty)
        (fun n member => interning_walk n _ _ _ _) (fun hnm h => walk_mono hnm h)
        (fun member _ sub₁ σ₁ out₁ hsame hext hsound₁ hmember =>
          hsame.map ▸ simulated_applyMember happly hsound₁ hmember)
        (.refl sub) (.refl σ) hsound hmembers
    have hρ₁ : ρ₁.Consed structuralHash regular := by
      have hgrow : Grows structuralHash regular σ ρ₁ := .of_interning
        (interning_rewriteAll (fun member => interning_walk n _ _ _ _) members) hsound.consed hwalks
      exact hgrow.consed hsound.consed
    have hreplay := interning_union perMember σ₁ hsound₁.consed _ hunion
    obtain ⟨ρ₂, hunion', halike₂⟩ := hreplay.alike ρ₁ hρ₁ halike₁.symm
    have hσ₂ := hreplay.grows.consed hsound₁.consed
    refine ⟨n + 1, visits.map Visit.forget, ρ₂, ?_, hran, halike₂.symm, ⟨hσ₂, ?_, ?_⟩,
      hgrow₁.trans hreplay.grows⟩
    · rw [hwalk, hask]
      simp only [bind_some, hwalks, hresults, hunion']
    · exact hsound₁.fresh.extend hsound₁.consed hreplay.grows hreplay.caches
    · exact hsound₁.memo.extends hsound₁.consed hσ₂ hreplay.grows.grown
  | rewrite arm =>
    exact frameSimulated_applyArm happly hsound hfree hmap hinert hip hstack hrow hask hrun

end Frames

/-- The key of the current context. -/
theorem contextKey_canonical {freeParams : List TypeParamId}
    (hfree : σ.store.ExactFree ty freeParams)
    (hlookup : sub.freeParamSummaries.lookup ty = some freeParams) :
    ContextKey σ sub.map sub.blocked (ty, sub.canonicalBlockedContext ty) := by
  refine ⟨freeParams, hfree, ?_⟩
  simp [canonicalBlockedContext, hlookup]

/-- **Closing a frame** files its visit and keeps the memos sound. -/
theorem closeFrame_spec {visits : List Visit} {result : TypeId} {after : Substitution} {n : Nat}
    {key : MemoKey} (hkey : key.1 = ty) (hrow : σ.store.row ty = some row)
    (hcontext : ContextKey σ sub.map sub.blocked key)
    (hran : Ran sub.openFrame after visits) (hmemo : MemoSound structuralHash σ after)
    (hwalk : Walks structuralHash σ n sub.map sub.inProgress sub.blocked ty
      (.close ty row.canReenter visits result)) :
    MemoSound structuralHash σ (sub.closeFrame after key row.canReenter result) ∧
      Ran sub (sub.closeFrame after key row.canReenter result)
        [.close ty row.canReenter visits result] := by
  subst hkey
  have hsame : SameRun sub after := ⟨hran.map, hran.inProgress, hran.blocked⟩
  have htaint : after.cycleEpoch = sub.cycleEpoch ↔ visits.any Visit.tainted = false := hran.tainted
  unfold closeFrame
  dsimp only
  split
  · rename_i hepoch
    -- no cycle was met since the frame was opened, so the result is complete
    have hclean := htaint.mp hepoch
    have hvisit : Visit.close key.1 row.canReenter visits result = .clean result := by
      rw [Visit.close, if_neg (by simp [hclean])]
    rw [hvisit] at hwalk ⊢
    constructor
    · refine ⟨hmemo.summaries, fun key' result' hget => ?_, hmemo.tainted⟩
      by_cases heq : key' = key
      · subst heq
        rw [Finmap.lookup_insert, some.injEq] at hget
        subst hget
        rw [hsame.map]
        exact ⟨n, sub.inProgress, sub.blocked, hcontext, hwalk⟩
      · rw [Finmap.lookup_insert_of_ne _ heq] at hget
        exact hmemo.completed key' result' hget
    · exact .of_clean ⟨hsame.map, hsame.inProgress, hsame.blocked⟩ hepoch rfl
        subset_union_left (by simp)
  · rename_i hepoch
    -- the result depends on the nodes in progress, which the entry records
    have htainted : visits.any Visit.tainted = true := by
      by_contra hne
      exact hepoch (htaint.mpr (by simpa using hne))
    have hreentered : (Visit.close key.1 row.canReenter visits result).reentered
        ⊆ after.frameReentered.erase key.1 := by
      intro a ha
      obtain ⟨_, hne, visit, hv, hmem⟩ := Visit.mem_reentered_close.mp ha
      exact mem_erase.mpr ⟨hne, hran.reentered visit hv hmem⟩
    have hvisited : ∀ a ∈ (Visit.close key.1 row.canReenter visits result).visited,
        a ∈ after.frameVisited ∨ (row.canReenter = true ∧ a = key.1) := by
      intro a ha
      rcases (Visit.mem_visited_close.mp ha).2 with ⟨visit, hv, hmem⟩ | hown
      · exact .inl (hran.visited visit hv hmem)
      · exact .inr hown
    constructor
    · refine ⟨hmemo.summaries, hmemo.completed, fun key' entry hget => ?_⟩
      by_cases heq : key' = key
      · subst heq
        rw [Finmap.lookup_insert, some.injEq] at hget
        subst hget
        rw [hsame.map]
        refine ⟨n, sub.inProgress, sub.blocked, _, hcontext, hwalk, ?_, Visit.result_close,
          hreentered, fun a ha => ?_⟩
        · rw [Visit.tainted_close, htainted]
        · rcases hvisited a ha with ha | ⟨hcan, rfl⟩
          · exact .inl ha
          · exact .inr ⟨rfl, row, hrow, hcan⟩
      · rw [Finmap.lookup_insert_of_ne _ heq] at hget
        exact hmemo.tainted key' entry hget
    · exact
        { map := hsame.map
          inProgress := hsame.inProgress
          blocked := hsame.blocked
          epoch_le := hran.epoch_le
          tainted := by simp [hepoch, htainted]
          reentered_le := subset_union_left
          visited_le := subset_union_left.trans subset_union_left
          reentered := by
            intro visit hv
            rw [List.mem_singleton.mp hv]
            exact hreentered.trans subset_union_right
          visited := by
            intro visit hv a ha
            rw [List.mem_singleton.mp hv] at ha
            rcases hvisited a ha with ha | ⟨hcan, rfl⟩
            · exact mem_union_left _ (mem_union_right _ ha)
            · simp [hcan] }

end Frames

/-! ## §4 The run -/

section Run

variable {σ σ' : Interner} {sub sub' : Substitution} {ty : TypeId} {row : Row}

/-- A memo entry that fits the stack is what the walk finds. -/
theorem walk_of_memo {n : Nat} {ip : FxHashSet TypeId} {blocked : FxHashSet TypeParamId}
    {key : MemoKey} {visit : Visit} (hσ : σ.Consed structuralHash regular) (hkey : key.1 = ty)
    (hcontext : ContextKey σ sub.map sub.blocked key)
    (hstack : Stack structuralHash σ sub.map sub.inProgress sub.blocked ty)
    (hentry : ContextKey σ sub.map blocked key)
    (hwalk : Walks structuralHash σ n sub.map ip blocked key.1 visit)
    (hreentered : visit.reentered ⊆ sub.inProgress)
    (hvisited : Disjoint visit.visited sub.inProgress) :
    walk structuralHash n sub.map sub.inProgress sub.blocked ty σ = some (visit, σ) := by
  subst hkey
  exact walk_of_walks hσ hcontext.grounded
    (hwalk.transfer (hentry.sameContext hcontext) hstack hreentered hvisited)

/-- **The memoized run does what the walk does.** -/
theorem simulates_apply (fuel : Nat) :
    Simulates structuralHash regular (apply structuralHash fuel) := by
  induction fuel with
  | zero =>
    intro ty sub σ out _ _ hrun
    cases hrun
  | succ fuel ih =>
    intro ty sub σ out hsound hstack hrun
    unfold apply at hrun
    split at hrun
    · rename_i hmap
      cases hrun
      refine ⟨1, .clean ty, σ, ?_, rfl, .of_clean (.refl sub) rfl rfl subset_rfl (by simp),
        .refl σ, hsound, .refl σ⟩
      simp only [walk, hmap, if_true]
    rename_i hmap
    rw [Bool.not_eq_true] at hmap
    simp only [bind_eq_bind, bind_eq_some_iff] at hrun
    obtain ⟨⟨freeParams, sub₁, σ₁⟩, hsummary, hrun⟩ := hrun
    obtain ⟨hfree, hsound₁, hlookup, hsub₁⟩ := runSound_freeParamSummary hsound hsummary
    have hcore : SameCore σ σ₁ := (sameCore_freeParamSummary_run hsummary :)
    have hσ₁ := hsound₁.consed
    -- the summary touches the caches only, so the walk may start from either state
    have hsame : SameRun sub sub₁ := by
      rw [hsub₁]
      exact ⟨rfl, rfl, rfl⟩
    have hground : σ.store.Grounded ty := by
      rw [← hcore.store_eq]
      exact hfree.grounded
    have hstack₁ : Stack structuralHash σ₁ sub₁.map sub₁.inProgress sub₁.blocked ty := by
      rw [hsame.map, hsame.inProgress, hsame.blocked]
      exact hstack.extends hsound.consed hcore.extends hground
    have hscratch := scratchFreeParams_of_exact hσ₁.wellFormed hfree
    rw [← hsame.map] at hmap
    -- it is enough to simulate the call from the state with the summary
    suffices hcall : Simulated structuralHash regular
        (fun n => walk structuralHash n sub₁.map sub₁.inProgress sub₁.blocked ty) Visit.result
        (fun visit => [visit]) sub₁ σ₁ out by
      obtain ⟨n, visit, ρ, hwalk, hresult, hran, halike, hsound', hgrow⟩ := hcall
      obtain ⟨ρ', hwalk', hρ'⟩ :=
        walk_alike hσ₁ hsound.consed (Alike.of_sameCore hcore).symm hwalk
      rw [hsame.map, hsame.inProgress, hsame.blocked] at hwalk'
      refine ⟨n, visit, ρ', hwalk', hresult, ?_, hρ'.symm.trans halike, hsound',
        (Grows.of_sameCore hsound.consed hcore).trans hgrow⟩
      rw [hsub₁] at hran
      exact ⟨⟨hran.map, hran.inProgress, hran.blocked⟩, hran.epoch_le, hran.tainted,
        hran.reentered_le, hran.visited_le, hran.reentered, hran.visited⟩
    dsimp only at hrun
    split at hrun
    · rename_i hinert
      cases hrun
      refine ⟨1, .clean ty, σ₁, ?_, rfl, .of_clean (.refl sub₁) rfl rfl subset_rfl (by simp),
        .refl σ₁, hsound₁, .refl σ₁⟩
      simp [walk, hmap, hscratch, hinert]
    rename_i hinert
    rw [Bool.not_eq_true] at hinert
    split at hrun
    · -- a live id is returned as it is, and the frame records the re-entry
      rename_i hip
      cases hrun
      refine ⟨1, .cut ty, σ₁, ?_, rfl, ?_, .refl σ₁,
        ⟨hσ₁, hsound₁.fresh, hsound₁.memo.summaries, hsound₁.memo.completed,
          hsound₁.memo.tainted⟩, .refl σ₁⟩
      · simp [walk, hmap, hscratch, hinert, hip]
      · exact
          { map := rfl
            inProgress := rfl
            blocked := rfl
            epoch_le := Nat.le_succ _
            tainted := by simp [Visit.cut]
            reentered_le := subset_insert _ _
            visited_le := subset_rfl
            reentered := by simp [Visit.cut]
            visited := by simp [Visit.cut] }
    rename_i hip
    simp only [bind_eq_some_iff] at hrun
    obtain ⟨row, hrow, hrun⟩ := hrun
    have hcontext := contextKey_canonical hfree hlookup
    cases hcompleted : sub₁.completed.lookup (ty, sub₁.canonicalBlockedContext ty) with
    | some result =>
      -- a completed result needs no record to fit the stack
      rw [hcompleted] at hrun
      cases hrun
      obtain ⟨n, ip, blocked, hentry, hwalk⟩ := hsound₁.memo.completed _ _ hcompleted
      refine ⟨n, .clean result, σ₁, ?_, rfl,
        .of_clean (.refl sub₁) rfl rfl subset_rfl (by simp), .refl σ₁, hsound₁, .refl σ₁⟩
      exact walk_of_memo hσ₁ rfl hcontext hstack₁ hentry hwalk (empty_subset _)
        (disjoint_empty_left _)
    | none =>
      rw [hcompleted] at hrun
      dsimp only at hrun
      split at hrun
      · rename_i found hfilter
        cases hrun
        rw [filter_eq_some_iff] at hfilter
        obtain ⟨hfound, hreusable⟩ := hfilter
        simp only [reusable, Bool.and_eq_true, decide_eq_true_eq] at hreusable
        obtain ⟨n, ip, blocked, visit, hkey, hwalk, htaint, hresult, hreentered, hvisited⟩ :=
          hsound₁.memo.tainted _ _ hfound
        have hdisjoint : Disjoint visit.visited sub₁.inProgress := by
          refine disjoint_left.mpr (fun a ha hmem => ?_)
          rcases hvisited a ha with hold | ⟨rfl, _⟩
          · exact disjoint_left.mp hreusable.2 hmem hold
          · exact hip hmem
        refine ⟨n, visit, σ₁, ?_, hresult, ?_, .refl σ₁,
          ⟨hσ₁, hsound₁.fresh, hsound₁.memo.summaries, hsound₁.memo.completed,
            hsound₁.memo.tainted⟩, .refl σ₁⟩
        · exact walk_of_memo hσ₁ rfl hcontext hstack₁ hkey hwalk
            (hreentered.trans hreusable.1) hdisjoint
        · exact
            { map := rfl
              inProgress := rfl
              blocked := rfl
              epoch_le := Nat.le_succ _
              tainted := by simp [htaint]
              reentered_le := subset_union_left
              visited_le := subset_union_left.trans subset_union_left
              reentered := by
                intro v hv
                rw [List.mem_singleton.mp hv]
                exact hreentered.trans subset_union_right
              visited := by
                intro v hv a ha
                rw [List.mem_singleton.mp hv] at ha
                rcases hvisited a ha with hold | ⟨rfl, row', hrow', hcan⟩
                · exact mem_union_left _ (mem_union_right _ hold)
                · rw [hrow, some.injEq] at hrow'
                  subst hrow'
                  simp [hcan] }
      · rename_i hfilter
        simp only [bind_eq_some_iff] at hrun
        obtain ⟨⟨result, after, σ₂⟩, hbody, hrun⟩ := hrun
        cases hrun
        have hopen : RunSound structuralHash regular σ₁ sub₁.openFrame :=
          ⟨hσ₁, hsound₁.fresh, hsound₁.memo.summaries, hsound₁.memo.completed,
            hsound₁.memo.tainted⟩
        obtain ⟨n, visits, ρ, hwalk, hran, halike, hsound₂, hgrow⟩ :=
          frameSimulated_applyRow ih hopen hfree hmap hinert hip hstack₁ hrow hbody
        have hwalks := walks_of_walk hsound₂.consed hσ₁ hwalk halike.extends
        obtain ⟨hmemo, hclosed⟩ := closeFrame_spec rfl (hgrow.grown.row hrow)
          (hcontext.extends hσ₁ hgrow.grown) hran hsound₂.memo hwalks
        exact ⟨n, _, ρ, hwalk, Visit.result_close, hclosed, halike,
          ⟨hsound₂.consed, hsound₂.fresh, hmemo⟩, hgrow⟩

end Run

/-! ## §5 The run returns -/

/-- The memoized walk returns whenever the walk of depth `n` does. -/
def Returns (structuralHash : StructuralKey → Nat) (regular : Prop) (n : Nat) (apply : Apply) :
    Prop :=
  ∀ ty sub σ result, RunSound structuralHash regular σ sub →
    Stack structuralHash σ sub.map sub.inProgress sub.blocked ty →
    walk structuralHash n sub.map sub.inProgress sub.blocked ty σ = some result →
    ∃ out, apply ty (sub, σ) = some out

/-- **A list of calls returns** when the list of walks does, with the same results. -/
theorem returns_rewriteAll {A : Type}
    {f : A → Substitution × Interner → Option (TypeId × Substitution × Interner)}
    {w : Nat → A → Interner → Option (Visit × Interner)} {view : Visit → Visit}
    (hw : ∀ n x, Interning structuralHash regular (w n x))
    (hmono : ∀ {n m x σ result}, n ≤ m → w n x σ = some result → w m x σ = some result)
    {sub₀ : Substitution} {σ₀ : Interner} {xs : List A} {n : Nat}
    (hf : ∀ x ∈ xs, ∀ sub σ out, SameRun sub₀ sub → Extends σ₀ σ →
      RunSound structuralHash regular σ sub → f x (sub, σ) = some out →
      Simulated structuralHash regular (fun n => w n x) Visit.result (fun visit => [view visit])
        sub σ out)
    (hreturns : ∀ x ∈ xs, ∀ sub σ result, SameRun sub₀ sub → Extends σ₀ σ →
      RunSound structuralHash regular σ sub → w n x σ = some result →
      ∃ out, f x (sub, σ) = some out) :
    ∀ {sub σ result}, SameRun sub₀ sub → Extends σ₀ σ → RunSound structuralHash regular σ sub →
      rewriteAll (w n) xs σ = some result → ∃ out, rewriteAll f xs (sub, σ) = some out ∧
        result.1.map Visit.result = out.1 ∧ Alike result.2 out.2.2 ∧
        RunSound structuralHash regular out.2.2 out.2.1 := by
  induction xs with
  | nil =>
    intro sub σ result _ _ hsound hwalks
    cases hwalks
    exact ⟨_, rfl, rfl, .refl σ, hsound⟩
  | cons x xs ih =>
    intro sub σ result hsame hext hsound hwalks
    simp only [rewriteAll, bind_eq_bind, bind_eq_some_iff, some.injEq] at hwalks
    obtain ⟨⟨visit, ρ⟩, hwalk, ⟨visits, ρ'⟩, hrest, rfl⟩ := hwalks
    obtain ⟨⟨r, sub₁, σ₁⟩, hfirst⟩ := hreturns x (by simp) sub σ _ hsame hext hsound hwalk
    obtain ⟨m, visit', ρ₁, hwalk', hresult, hran, halike, hsound₁, hgrow₁⟩ :=
      hf x (by simp) sub σ _ hsame hext hsound hfirst
    -- the walk of the simulation is the given one, so the rest starts from a state alike to it
    have heq : (visit', ρ₁) = (visit, ρ) := by
      have hmax : w (max m n) x σ = some (visit', ρ₁) := hmono (le_max_left m n) hwalk'
      rw [hmono (le_max_right m n) hwalk, some.injEq] at hmax
      exact hmax.symm
    cases heq
    have hρ : ρ.Consed structuralHash regular :=
      (hw n x σ hsound.consed _ hwalk).grows.consed hsound.consed
    obtain ⟨ρ₂, hrest', halike₂⟩ :=
      (interning_rewriteAll (hw n) xs ρ hρ _ hrest).alike σ₁ hsound₁.consed halike
    obtain ⟨⟨rs, sub₂, σ₂⟩, hout, hresults, halike₃, hsound₂⟩ :=
      ih (fun x' hx' => hf x' (List.mem_cons_of_mem _ hx'))
        (fun x' hx' => hreturns x' (List.mem_cons_of_mem _ hx')) (hsame.trans hran.toSameRun)
        (hext.trans hgrow₁.grown) hsound₁ hrest'
    refine ⟨(r :: rs, sub₂, σ₂), ?_, congrArg₂ List.cons hresult hresults,
      halike₂.trans halike₃, hsound₂⟩
    simp only [rewriteAll, bind_eq_bind, hfirst, bind_some]
    rw [hout]
    rfl

section Returning

variable {σ σ' : Interner} {sub : Substitution} {ty : TypeId} {row : Row} {n : Nat}
  {map : FxHashMap TypeParamId TypeId}

/-- A walk with a map reads the free set of its id first. -/
theorem grounded_of_walk {ip : FxHashSet TypeId} {blocked : FxHashSet TypeParamId}
    {result : Visit × Interner} (hmap : isEmpty map = false)
    (h : walk structuralHash n map ip blocked ty σ = some result) : σ.store.Grounded ty := by
  cases n with
  | zero => cases h
  | succ n =>
    rw [walk, if_neg (by simp [hmap]), bind_eq_bind, bind_eq_some_iff] at h
    obtain ⟨freeParams, hfree, _⟩ := h
    exact (scratchFreeParams_exact hfree).grounded

theorem cleanApplicationKey_isSome (hσ : σ.Consed structuralHash regular)
    (hfresh : CachesFresh structuralHash regular σ)
    (hty : isEmpty map = false → σ.store.Grounded ty) :
    ∃ result, cleanApplicationKey { map } σ ty = some result := by
  unfold cleanApplicationKey
  split
  · exact ⟨_, rfl⟩
  · rename_i hmap
    obtain ⟨⟨summary, sub, σ₁⟩, hsummary⟩ := applicationSummary_isSome
      ⟨hσ, hfresh, memoSound_fresh σ map⟩ (hty (by simpa using hmap))
    rw [hsummary]
    simp only [bind_eq_bind, bind_some]
    split
    · exact ⟨_, rfl⟩
    · exact ⟨_, rfl⟩

/-- **A root substitution returns** when the walk does. -/
theorem returns_substituteWith {apply : Apply} (happly : Returns structuralHash regular n apply)
    (hσ : σ.Consed structuralHash regular) (hfresh : CachesFresh structuralHash regular σ)
    {result : Visit × Interner} (hwalk : walk structuralHash n map ∅ ∅ ty σ = some result) :
    ∃ out, substituteWith apply σ ty map = some out := by
  obtain ⟨⟨cleanKey, sub, σ₁⟩, hkeyed⟩ :=
    cleanApplicationKey_isSome hσ hfresh (fun hmap => grounded_of_walk hmap hwalk)
  obtain ⟨hsound₁, hsub, _⟩ := runSound_cleanApplicationKey hσ hfresh hkeyed
  have hcore₂ := sameCore_lookUp cleanKey σ₁
  have hcore : SameCore σ (lookUp cleanKey σ₁).2 :=
    SameCore.trans (sameCore_cleanApplicationKey hkeyed) hcore₂
  have hσ₂ := (Grows.of_sameCore hσ hcore).consed hσ
  rw [substituteWith_eq, hkeyed]
  simp only [bind_some]
  cases (lookUp cleanKey σ₁).1 with
  | some found => exact ⟨_, rfl⟩
  | none =>
    have hsound₂ : RunSound structuralHash regular (lookUp cleanKey σ₁).2 sub :=
      ⟨hσ₂, cachesFresh_lookUp hsound₁.consed hsound₁.fresh,
        hsound₁.memo.extends hsound₁.consed hσ₂ hcore₂.extends⟩
    have hcall := happly ty sub (lookUp cleanKey σ₁).2
    rw [hsub] at hcall
    obtain ⟨ρ, hwalk', _⟩ := walk_alike hσ hσ₂ (.of_sameCore hcore) hwalk
    obtain ⟨out, hout⟩ := hcall _ (hsub ▸ hsound₂) stack_empty hwalk'
    rw [← hsub] at hout
    simp only [hout, bind_some]
    split
    · exact ⟨_, rfl⟩
    · exact ⟨_, rfl⟩

/-- **The body of a frame returns** when the walk does. -/
theorem returns_applyRow {apply : Apply} (hsimulates : Simulates structuralHash regular apply)
    (hreturns : Returns structuralHash regular n apply) {freeParams : List TypeParamId}
    (hsound : RunSound structuralHash regular σ sub) (hfree : σ.store.ExactFree ty freeParams)
    (hmap : isEmpty sub.map = false)
    (hinert : allInert sub.map sub.blocked freeParams = false)
    (hip : ty ∉ sub.inProgress)
    (hstack : Stack structuralHash σ sub.map sub.inProgress sub.blocked ty)
    (hrow : σ.store.row ty = some row) {result : Visit × Interner}
    (hwalk : walk structuralHash (n + 1) sub.map sub.inProgress sub.blocked ty σ = some result) :
    ∃ out, applyRow structuralHash apply ty row (sub, σ) = some out := by
  rw [walk_of_row hsound.consed.wellFormed hfree hmap hinert hip hrow, bind_eq_some_iff] at hwalk
  obtain ⟨asked, hask, hwalk⟩ := hwalk
  unfold applyRow
  simp only [bind_eq_bind, hask, bind_some]
  cases asked with
  | done result => exact ⟨_, rfl⟩
  | defer => exact ⟨_, rfl⟩
  | distribute param members =>
    simp only [bind_eq_some_iff] at hwalk
    obtain ⟨⟨visits, ρ⟩, hwalks, made, hunion, _⟩ := hwalk
    have hw : ∀ n member, Interning structuralHash regular
        ((fun n member => walk structuralHash n (sub.map.insert param member) ∅ ∅ ty) n member) :=
      fun n member => interning_walk n _ _ _ _
    obtain ⟨⟨perMember, sub₁, σ₁⟩, hout, hresults, halike, hsound₁⟩ :=
      returns_rewriteAll hw (fun hnm h => walk_mono hnm h)
        (fun member _ sub₁ σ₁ out₁ hsame _ hsound₁ hmember =>
          hsame.map ▸ simulated_applyMember hsimulates hsound₁ hmember)
        (fun member _ sub₁ σ₁ result hsame _ hsound₁ hmember => by
          obtain ⟨out, hout⟩ :=
            returns_substituteWith hreturns hsound₁.consed hsound₁.fresh hmember
          rw [← hsame.map] at hout
          simp only [applyMember, bind_eq_bind, hout, bind_some]
          exact ⟨_, rfl⟩)
        (.refl sub) (.refl σ) hsound hwalks
    have hρ : ρ.Consed structuralHash regular := by
      have hgrow : Grows structuralHash regular σ ρ :=
        .of_interning (interning_rewriteAll (hw n) members) hsound.consed hwalks
      exact hgrow.consed hsound.consed
    obtain ⟨σ₂, hunion', _⟩ := (interning_union _ ρ hρ _ hunion).alike _ hsound₁.consed halike
    rw [hresults] at hunion'
    refine ⟨(made.1, sub₁, σ₂), ?_⟩
    simp only [hout, bind_some, hunion']
    rfl
  | rewrite arm =>
    simp only [bind_eq_some_iff] at hwalk
    obtain ⟨⟨visits, ρ⟩, hwalks, made, hfinish, _⟩ := hwalk
    have hentered : RunSound structuralHash regular σ { sub with
        inProgress := if arm.tracked then insert ty sub.inProgress else sub.inProgress
        blocked := sub.blocked ∪ arm.binders.toFinset \ sub.blocked } :=
      ⟨hsound.consed, hsound.fresh, hsound.memo.summaries, hsound.memo.completed,
        hsound.memo.tainted⟩
    have hblocked : sub.blocked ∪ arm.binders.toFinset \ sub.blocked
        = sub.blocked ∪ arm.binders.toFinset := union_sdiff_self_eq_union
    -- the stack of a child was built on the graph the frame started from
    have hchild : ∀ child ∈ arm.children, ∀ σ₁, Extends σ σ₁ →
        Stack structuralHash σ₁ sub.map (arm.enter ty sub.inProgress)
          (sub.blocked ∪ arm.binders.toFinset) child := by
      intro child hc σ₁ hext
      exact (hstack.child hrow hask hc).extends hsound.consed hext
        (hfree.grounded.child ⟨row, hrow, (dispatch_rewrite hask).1 child hc⟩)
    obtain ⟨⟨new, sub₁, σ₁⟩, hout, hresults, halike, hsound₁⟩ :=
      returns_rewriteAll (fun n x => interning_walk n _ _ _ x) (fun hnm h => walk_mono hnm h)
        (fun child hc sub₁ σ₁ out₁ hsame hext hsound₁ hrun => by
          have hcall := hsimulates child sub₁ σ₁ out₁ hsound₁
          rw [hsame.map, hsame.inProgress, hsame.blocked, hblocked] at hcall
          exact hcall (hchild child hc σ₁ hext) hrun)
        (fun child hc sub₁ σ₁ result hsame hext hsound₁ hwalk => by
          have hcall := hreturns child sub₁ σ₁ result hsound₁
          rw [hsame.map, hsame.inProgress, hsame.blocked, hblocked] at hcall
          exact hcall (hchild child hc σ₁ hext) hwalk)
        (.refl _) (.refl σ) hentered hwalks
    have hρ : ρ.Consed structuralHash regular := by
      have hgrow : Grows structuralHash regular σ ρ := .of_interning
        (interning_rewriteAll (fun x => interning_walk n _ _ _ x) arm.children) hsound.consed hwalks
      exact hgrow.consed hsound.consed
    obtain ⟨σ₂, hfinish', _⟩ := (interning_finish hask _ ρ hρ _ hfinish).alike _ hsound₁.consed halike
    rw [hresults] at hfinish'
    simp only [applyArm, bind_eq_bind, hout, bind_some, hfinish']
    exact ⟨_, rfl⟩

/-- **The memoized run returns whenever the walk does.** -/
theorem returns_apply (n : Nat) :
    Returns structuralHash regular n (apply structuralHash n) := by
  induction n with
  | zero =>
    intro ty sub σ result _ _ hwalk
    cases hwalk
  | succ n ih =>
    intro ty sub σ result hsound hstack hwalk
    unfold apply
    split
    · exact ⟨_, rfl⟩
    rename_i hmap
    rw [Bool.not_eq_true] at hmap
    have hground := grounded_of_walk hmap hwalk
    obtain ⟨⟨freeParams, sub₁, σ₁⟩, hsummary⟩ := freeParamSummary_isSome hsound hground
    obtain ⟨hfree, hsound₁, hlookup, hsub₁⟩ := runSound_freeParamSummary hsound hsummary
    have hcore : SameCore σ σ₁ := (sameCore_freeParamSummary_run hsummary :)
    have hσ₁ := hsound₁.consed
    have hsame : SameRun sub sub₁ := by
      rw [hsub₁]
      exact ⟨rfl, rfl, rfl⟩
    have hstack₁ : Stack structuralHash σ₁ sub₁.map sub₁.inProgress sub₁.blocked ty := by
      rw [hsame.map, hsame.inProgress, hsame.blocked]
      exact hstack.extends hsound.consed hcore.extends hground
    obtain ⟨ρ, hwalk₁, _⟩ := walk_alike hsound.consed hσ₁ (.of_sameCore hcore) hwalk
    rw [← hsame.map, ← hsame.inProgress, ← hsame.blocked] at hwalk₁
    rw [← hsame.map] at hmap
    simp only [bind_eq_bind, hsummary, bind_some]
    split
    · exact ⟨_, rfl⟩
    rename_i hinert
    rw [Bool.not_eq_true] at hinert
    split
    · exact ⟨_, rfl⟩
    rename_i hip
    obtain ⟨row, hrow⟩ := hfree.grounded ty .refl
    simp only [hrow, bind_some]
    split
    · exact ⟨_, rfl⟩
    · split
      · exact ⟨_, rfl⟩
      · have hopen : RunSound structuralHash regular σ₁ sub₁.openFrame :=
          ⟨hσ₁, hsound₁.fresh, hsound₁.memo.summaries, hsound₁.memo.completed,
            hsound₁.memo.tainted⟩
        obtain ⟨out, hout⟩ := returns_applyRow (simulates_apply n) ih hopen hfree hmap hinert hip
          hstack₁ hrow hwalk₁
        rw [hout]
        exact ⟨_, rfl⟩

end Returning

end Typokat.Types
