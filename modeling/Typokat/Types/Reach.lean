import Typokat.Types.Extension

/-!
# Reachable Interners

A substitution only adds rows, whatever its caches hold, so every operation of a history
is a sequence of core steps and every reachable interner is hash-consed.  What a row says
is final once the row is structural or its reservation is frozen.

## Main Results

- `growing_apply` : the memoized walk only adds rows
- `Interner.steps_step`, `Interner.steps_runHistory` : operations and histories
- `Interner.Settled` : rows that have their final body
-/

namespace Typokat.Types

variable {structuralHash : StructuralKey → Nat} {regular : Prop}

namespace Interner

/-! ## §1 Walks only add rows -/

theorem Grows.of_interning {σ : Interner} {A : Type} {f : Interner → Option (A × Interner)}
    (hf : Interning structuralHash regular f) (hσ : σ.Consed structuralHash regular)
    {result : A × Interner} (h : f σ = some result) : Grows structuralHash regular σ result.2 :=
  (hf σ hσ result h).grows

end Interner

open Interner Option

/-- The walk only adds rows. -/
def Growing (structuralHash : StructuralKey → Nat) (regular : Prop) (apply : Apply) : Prop :=
  ∀ ty state result, state.2.Consed structuralHash regular → apply ty state = some result →
    Grows structuralHash regular state.2 result.2.2

theorem grows_rewriteAll {A : Type}
    {f : A → Substitution × Interner → Option (TypeId × Substitution × Interner)}
    (hf : ∀ x state result, state.2.Consed structuralHash regular → f x state = some result →
      Grows structuralHash regular state.2 result.2.2)
    {xs : List A} {state : Substitution × Interner}
    {result : List TypeId × Substitution × Interner}
    (h : rewriteAll f xs state = some result) (hσ : state.2.Consed structuralHash regular) :
    Grows structuralHash regular state.2 result.2.2 := by
  induction xs generalizing state result with
  | nil =>
    cases h
    exact .refl _
  | cons x xs ih =>
    simp only [rewriteAll, bind_eq_bind, bind_eq_some_iff, some.injEq] at h
    obtain ⟨first, hfirst, rest, hrest, rfl⟩ := h
    have hgrow := hf x state first hσ hfirst
    exact hgrow.trans (ih hrest (hgrow.consed hσ) :)

section Walk

variable {apply : Apply}

section Summaries

variable {sub : Substitution} {σ : Interner} {ty : TypeId}

theorem sameCore_applicationSummary {result : ApplicationSummary × Substitution × Interner}
    (h : sub.applicationSummary σ ty = some result) : SameCore σ result.2.2 := by
  -- the two lookups align their caches before anything is computed
  have haligned : SameCore σ (((if ty ∈ sub.freeParamSummaries then σ
      else (σ.freeParamSummary ty).2).applicationKeyMode ty).2) := by
    split
    · exact sameCore_applicationKeyMode σ ty
    · exact (sameCore_freeParamSummary σ ty).trans (sameCore_applicationKeyMode _ ty)
  unfold Substitution.applicationSummary at h
  dsimp only at h
  split at h
  · cases h
    exact haligned
  · simp only [bind_eq_bind, bind_eq_some_iff, some.injEq] at h
    obtain ⟨computed, hcomputed, rfl⟩ := h
    exact haligned.trans (sameCore_computeApplicationSummaries hcomputed)

theorem sameCore_freeParamSummary_run {result : List TypeParamId × Substitution × Interner}
    (h : sub.freeParamSummary σ ty = some result) : SameCore σ result.2.2 := by
  unfold Substitution.freeParamSummary at h
  split at h
  · cases h
    exact .refl σ
  · simp only [bind_eq_bind, bind_eq_some_iff, some.injEq] at h
    obtain ⟨summary, hsummary, rfl⟩ := h
    exact (sameCore_applicationSummary hsummary :)

theorem sameCore_cleanApplicationKey {result : Option CleanApplicationKey × Substitution × Interner}
    (h : sub.cleanApplicationKey σ ty = some result) : SameCore σ result.2.2 := by
  unfold Substitution.cleanApplicationKey at h
  split at h
  · cases h
    exact .refl σ
  · simp only [bind_eq_bind, bind_eq_some_iff] at h
    obtain ⟨summary, hsummary, h⟩ := h
    have hcore := sameCore_applicationSummary hsummary
    split at h <;> cases h <;> exact hcore

end Summaries

theorem grows_substituteWith (happly : Growing structuralHash regular apply) {σ : Interner}
    {ty : TypeId} {map : FxHashMap TypeParamId TypeId} {result : SubstitutionOutcome × Interner}
    (hσ : σ.Consed structuralHash regular) (h : substituteWith apply σ ty map = some result) :
    Grows structuralHash regular σ result.2 := by
  simp only [substituteWith, bind_eq_bind, bind_eq_some_iff] at h
  obtain ⟨⟨cleanKey, sub, σ₁⟩, hkey, h⟩ := h
  have hcore : SameCore σ σ₁ := (sameCore_cleanApplicationKey hkey :)
  -- the durable result is looked up, or the walk runs
  have hgrow : ∀ looked : Option TypeId × Interner,
      (∀ key, cleanKey = some key → looked = σ₁.cleanApplicationResult key) →
      (cleanKey = none → looked = (none, σ₁)) → Grows structuralHash regular σ looked.2 := by
    intro looked hsome hnone
    apply Grows.of_sameCore hσ (hcore.trans _)
    cases cleanKey with
    | some key => exact hsome key rfl ▸ sameCore_cleanApplicationResult σ₁ key
    | none => exact hnone rfl ▸ .refl σ₁
  dsimp only at h
  split at h
  · cases h
    apply hgrow
    · exact fun key hkey => by rw [hkey]
    · exact fun hkey => by rw [hkey]
  · simp only [bind_eq_some_iff] at h
    obtain ⟨⟨ty', sub', σ₂⟩, hrun, h⟩ := h
    have hwalk : Grows structuralHash regular σ σ₂ := by
      refine Grows.trans (hgrow _ ?_ ?_) (happly ty _ _ (Grows.consed (hgrow _ ?_ ?_) hσ) hrun)
      · exact fun key hkey => by rw [hkey]
      · exact fun hkey => by rw [hkey]
      · exact fun key hkey => by rw [hkey]
      · exact fun hkey => by rw [hkey]
    split at h
    · cases h
      split
      · exact hwalk.trans (.of_sameCore (hwalk.consed hσ)
          (sameCore_publishCleanApplicationResult _ _ _))
      · exact hwalk
    · cases h
      exact hwalk

theorem grows_applyMember (happly : Growing structuralHash regular apply) (ty : TypeId)
    (param : TypeParamId) (member : TypeId) (state : Substitution × Interner)
    (result : TypeId × Substitution × Interner) (hσ : state.2.Consed structuralHash regular)
    (h : applyMember apply ty param member state = some result) :
    Grows structuralHash regular state.2 result.2.2 := by
  simp only [applyMember, bind_eq_bind, bind_eq_some_iff, some.injEq] at h
  obtain ⟨outcome, houtcome, rfl⟩ := h
  exact grows_substituteWith happly hσ houtcome

theorem grows_applyRow (happly : Growing structuralHash regular apply) {ty : TypeId} {row : Row}
    {state : Substitution × Interner} {result : TypeId × Substitution × Interner}
    (hσ : state.2.Consed structuralHash regular)
    (h : applyRow structuralHash apply ty row state = some result) :
    Grows structuralHash regular state.2 result.2.2 := by
  simp only [applyRow, bind_eq_bind, bind_eq_some_iff] at h
  obtain ⟨asked, hasked, h⟩ := h
  cases asked with
  | done value =>
    cases h
    exact .refl _
  | defer =>
    cases h
    exact Grows.of_interning (interning_defer ty _) hσ rfl
  | distribute param members =>
    simp only [bind_eq_some_iff] at h
    obtain ⟨⟨perMember, sub, σ₁⟩, hmembers, ⟨value, σ₂⟩, hunion, h⟩ := h
    cases h
    have hgrow := grows_rewriteAll (grows_applyMember happly ty param) hmembers hσ
    exact hgrow.trans (.of_interning (interning_union perMember) (hgrow.consed hσ) hunion)
  | rewrite arm =>
    simp only [applyArm, bind_eq_bind, bind_eq_some_iff, some.injEq] at h
    obtain ⟨⟨new, sub, σ₁⟩, hchildren, ⟨value, σ₂⟩, hfinish, rfl⟩ := h
    have hgrow : Grows structuralHash regular state.2 σ₁ :=
      grows_rewriteAll (fun x => happly x) hchildren hσ
    exact hgrow.trans (.of_interning (interning_finish hasked new) (hgrow.consed hσ) hfinish)

/-- **The memoized walk only adds rows.** -/
theorem growing_apply (fuel : Nat) :
    Growing structuralHash regular (Substitution.apply structuralHash fuel) := by
  induction fuel with
  | zero =>
    intro ty state result _ h
    cases h
  | succ fuel ih =>
    rintro ty ⟨sub, σ⟩ result hσ h
    rw [Substitution.apply] at h
    split at h
    · cases h
      exact .refl σ
    · simp only [bind_eq_bind, bind_eq_some_iff] at h
      obtain ⟨⟨freeParams, sub₁, σ₁⟩, hsummary, h⟩ := h
      have hgrow : Grows structuralHash regular σ σ₁ :=
        .of_sameCore hσ (sameCore_freeParamSummary_run hsummary)
      split at h
      · cases h
        exact hgrow
      · split at h
        · cases h
          exact hgrow
        · obtain ⟨row, hrow, h⟩ := bind_eq_some_iff.mp h
          split at h
          · cases h
            exact hgrow
          · split at h
            · cases h
              exact hgrow
            · obtain ⟨⟨value, after, σ₂⟩, hrun, h⟩ := bind_eq_some_iff.mp h
              cases h
              exact hgrow.trans (grows_applyRow ih (hgrow.consed hσ) hrun)

theorem grows_substitute {fuel : Nat} {σ : Interner} {ty : TypeId}
    {map : FxHashMap TypeParamId TypeId} {result : TypeId × Interner}
    (hσ : σ.Consed structuralHash regular)
    (h : substitute structuralHash fuel σ ty map = some result) :
    Grows structuralHash regular σ result.2 := by
  obtain ⟨outcome, houtcome, rfl⟩ := map_eq_some_iff.mp h
  exact grows_substituteWith (growing_apply fuel) hσ houtcome

end Walk

/-! ## §2 Operations and histories -/

/-- No operation interns a number literal that is `NaN` or `-0`. -/
def InternerOp.Regular : InternerOp → Prop
  | .internLiteral value => value.Regular
  | _ => True

/-- The operations of interning, reservation, filling and substitution. -/
def InternerOp.Populates : InternerOp → Prop
  | .promote _ => False
  | .setTypeParamConstraint _ _ => False
  | .removeTypeParamConstraint _ => False
  | .freezeTypeParamMetadata _ => False
  | .freezeAsBase => False
  | .forkDelta => False
  | _ => True

namespace Interner

section Operations

variable {σ σ' : Interner}

/-- What an operation does, whatever interner it runs on. -/
inductive OpKind (structuralHash : StructuralKey → Nat) (regular : Prop) : InternerOp → Prop
  /-- a constructor of one key -/
  | interns {op : InternerOp} {key : StructuralKey} {f : Interner → TypeId × Interner} :
      (∀ fuel σ, op.step structuralHash fuel σ = some (OpResult.ofId (f σ))) →
      (∀ σ : Interner, σ.Consed structuralHash regular →
        InternSpec structuralHash regular σ key (f σ)) →
      key.tag ≠ .literal → key.tag ≠ .typeParam → OpKind structuralHash regular op
  | literal (value : LiteralValue) : OpKind structuralHash regular (.internLiteral value)
  | typeParam (id : TypeParamId) (name : String) :
      OpKind structuralHash regular (.internTypeParam id name)
  /-- a union, an intersection or a declared application -/
  | interning {op : InternerOp} {f : Interner → Option (TypeId × Interner)} :
      (∀ fuel σ, op.step structuralHash fuel σ = (f σ).map OpResult.ofId) →
      Interning structuralHash regular f → OpKind structuralHash regular op
  | declaredRecipe (node : DeclaredRecipeNode) :
      OpKind structuralHash regular (.internDeclaredRecipe node)
  | reserveObject : OpKind structuralHash regular .reserveObject
  | reserveConditional : OpKind structuralHash regular .reserveConditional
  | reserveMapped : OpKind structuralHash regular .reserveMapped
  /-- a batch; the body of a poisoned reservation depends on the well-known ids -/
  | fills {op : InternerOp} (fills : Interner → List ReservedTypeFill) :
      (∀ fuel σ, op.step structuralHash fuel σ =
        (σ.fillReservedTypeBatch (fills σ)).map OpResult.ofFill) →
      (∀ σ τ : Interner, τ.wellKnown = σ.wellKnown → fills τ = fills σ) →
      OpKind structuralHash regular op
  | expectFill {op : InternerOp} (fill : ReservedTypeFill) :
      (∀ fuel σ, op.step structuralHash fuel σ = (σ.expectFill fill).map OpResult.ofUnit) →
      OpKind structuralHash regular op
  | promote (id : TypeId) : OpKind structuralHash regular (.promote id)
  /-- the metadata of type parameters -/
  | sameRows {op : InternerOp} (f : Interner → OpResult × Store) :
      (∀ fuel σ, op.step structuralHash fuel σ = some ((f σ).1, { σ with store := (f σ).2 })) →
      (∀ σ : Interner, σ.store.WellFormed → SameRows σ.store (f σ).2) → ¬ op.Populates →
      OpKind structuralHash regular op
  | substitute (ty : TypeId) (map : FxHashMap TypeParamId TypeId) :
      OpKind structuralHash regular (.substitute ty map)
  | freezeAsBase : OpKind structuralHash regular .freezeAsBase
  | forkDelta : OpKind structuralHash regular .forkDelta

/-- **Every operation is of some kind.** -/
theorem opKind (structuralHash : StructuralKey → Nat) (regular : Prop) (op : InternerOp) :
    OpKind structuralHash regular op := by
  cases op with
  | internIntrinsic kind =>
    exact .interns (fun _ _ => rfl) (fun _ h => internSpec_internIntrinsic h kind) nofun nofun
  | internLiteral value => exact .literal value
  | internTypeParam id name => exact .typeParam id name
  | internInfer index =>
    exact .interns (fun _ _ => rfl) (fun _ h => internSpec_internInfer h index) nofun nofun
  | internObject body =>
    exact .interns (fun _ _ => rfl) (fun _ h => internSpec_internObject h body) nofun nofun
  | internFunction body =>
    exact .interns (fun _ _ => rfl) (fun _ h => internSpec_internFunction h body) nofun nofun
  | internArray element =>
    exact .interns (fun _ _ => rfl) (fun _ h => internSpec_internArray h element) nofun nofun
  | internTuple elements =>
    exact .interns (fun _ _ => rfl) (fun _ h => internSpec_internTupleType h _) nofun nofun
  | internTupleType body =>
    exact .interns (fun _ _ => rfl) (fun _ h => internSpec_internTupleType h body) nofun nofun
  | internReadonly operand =>
    exact .interns (fun _ _ => rfl) (fun _ h => internSpec_internReadonly h operand) nofun nofun
  | internConditional body =>
    exact .interns (fun _ _ => rfl) (fun _ h => internSpec_internConditional h body) nofun nofun
  | internInstantiation base args =>
    exact .interns (fun _ _ => rfl) (fun _ h => internSpec_internInstantiation h base args)
      nofun nofun
  | internClassInstance classId args =>
    exact .interns (fun _ _ => rfl) (fun _ h => internSpec_internClassInstance h classId args)
      nofun nofun
  | internDeferredIndexedAccess object index =>
    exact .interns (fun _ _ => rfl)
      (fun _ h => internSpec_internDeferredIndexedAccess h object index) nofun nofun
  | internMapped body =>
    exact .interns (fun _ _ => rfl) (fun _ h => internSpec_internMapped h body) nofun nofun
  | internKeyof operand =>
    exact .interns (fun _ _ => rfl) (fun _ h => internSpec_internKeyof h operand) nofun nofun
  | internTemplate body =>
    exact .interns (fun _ _ => rfl) (fun _ h => internSpec_internTemplate h body) nofun nofun
  | internMappedValue =>
    exact .interns (fun _ _ => rfl) (fun _ h => internSpec_internMappedValue h) nofun nofun
  | union members => exact .interning (fun _ _ => rfl) (interning_union members)
  | intersection members => exact .interning (fun _ _ => rfl) (interning_intersection members)
  | internDeclared recipe mapper =>
    exact .interning (fun _ _ => rfl) (interning_internDeclared recipe mapper)
  | internDeclaredRecipe node => exact .declaredRecipe node
  | reserveObject => exact .reserveObject
  | reserveConditional => exact .reserveConditional
  | reserveMapped => exact .reserveMapped
  | fillReservedTypeBatch fills => exact .fills (fun _ => fills) (fun _ _ => rfl) (fun _ _ _ => rfl)
  | fillObject id body => exact .expectFill (.object id body) (fun _ _ => rfl)
  | fillConditional id body => exact .expectFill (.conditional id body) (fun _ _ => rfl)
  | fillMapped id body => exact .expectFill (.mapped id body) (fun _ _ => rfl)
  | abandonReservedObject id =>
    exact .fills (fun _ => [.object id {}]) (fun _ _ => rfl) (fun _ _ _ => rfl)
  | poisonReservedConditional id =>
    -- the body that is filled in names only the intrinsics
    refine .fills (fun σ => [.conditional id (σ.errorConditional true)]) (fun _ _ => rfl) ?_
    intro σ τ h
    unfold errorConditional
    rw [h]
  | poisonReservedMapped id =>
    refine .fills (fun σ => [.mapped id σ.errorMapped]) (fun _ _ => rfl) ?_
    intro σ τ h
    unfold errorMapped
    rw [h]
  | promote id => exact .promote id
  | setTypeParamConstraint param constraint =>
    exact .sameRows (fun σ => (σ.store.setTypeParamConstraint param constraint).map .flag id)
      (fun _ _ => rfl) (fun _ h => sameRows_setTypeParamConstraint h param constraint) id
  | removeTypeParamConstraint param =>
    exact .sameRows (fun σ => (σ.store.removeTypeParamConstraint param).map .flag id)
      (fun _ _ => rfl) (fun _ h => sameRows_removeTypeParamConstraint h param) id
  | freezeTypeParamMetadata ids =>
    exact .sameRows (fun σ => (σ.store.freezeTypeParamMetadata ids).map .metadata id)
      (fun _ _ => rfl) (fun _ h => sameRows_freezeTypeParamMetadata h ids) id
  | substitute ty map => exact .substitute ty map
  | freezeAsBase => exact .freezeAsBase
  | forkDelta => exact .forkDelta

/-- **Every operation is a sequence of core steps.** -/
theorem steps_step (hσ : σ.Consed structuralHash regular) {fuel : Nat} {op : InternerOp}
    (hop : regular → op.Regular) {result : OpResult}
    (h : op.step structuralHash fuel σ = some (result, σ')) :
    Steps structuralHash regular σ σ' := by
  cases opKind structuralHash regular op with
  | interns hstep hspec =>
    rw [hstep] at h
    cases h
    exact (hspec σ hσ).steps
  | literal value => cases h; exact (internSpec_internLiteral hσ hop).steps
  | typeParam id name => cases h; exact (internSpec_internTypeParam hσ id name).steps
  | interning hstep hf =>
    rw [hstep] at h
    obtain ⟨made, hmade, h⟩ := map_eq_some_iff.mp h
    cases h
    exact (Grows.of_interning hf hσ hmade).steps
  | declaredRecipe node =>
    obtain ⟨made, hmade, h⟩ := map_eq_some_iff.mp h
    cases h
    exact steps_internDeclaredRecipe hσ hmade
  | reserveObject => cases h; exact steps_reserveObject hσ
  | reserveConditional => cases h; exact steps_reserveConditional hσ
  | reserveMapped => cases h; exact steps_reserveMapped hσ
  | fills fills hstep =>
    rw [hstep] at h
    obtain ⟨filled, hfilled, h⟩ := map_eq_some_iff.mp h
    cases h
    exact steps_fillReservedTypeBatch hσ hfilled
  | expectFill fill hstep =>
    rw [hstep] at h
    obtain ⟨filled, hfilled, h⟩ := map_eq_some_iff.mp h
    cases h
    exact steps_expectFill hσ hfilled
  | promote id => cases h; exact steps_promote hσ id
  | sameRows f hstep hrows =>
    rw [hstep] at h
    cases h
    exact (hrows σ hσ.wellFormed).steps
  | substitute ty map =>
    obtain ⟨made, hmade, h⟩ := map_eq_some_iff.mp h
    cases h
    exact (grows_substitute hσ hmade).steps
  | freezeAsBase => cases h; exact steps_freezeAsBase hσ
  | forkDelta =>
    rw [InternerOp.step] at h
    split at h
    · rename_i fork hfork
      cases h
      exact steps_forkDelta hσ hfork
    · cases h
      exact .refl

theorem steps_runHistory {fuel : Nat} {history : List InternerOp} {results : List OpResult}
    (hσ : σ.Consed structuralHash regular) (hops : ∀ op ∈ history, regular → op.Regular)
    (h : runHistory structuralHash fuel history σ = some (results, σ')) :
    Steps structuralHash regular σ σ' := by
  induction history generalizing σ results with
  | nil =>
    cases h
    exact .refl
  | cons op ops ih =>
    simp only [runHistory, bind_eq_bind, bind_eq_some_iff, some.injEq] at h
    obtain ⟨⟨result, σ₁⟩, hstep, ⟨rest, σ₂⟩, hrest, h⟩ := h
    cases h
    have hfirst := steps_step hσ (hops op (by simp)) hstep
    exact hfirst.trans (ih (hσ.steps hfirst) (fun op hmem => hops op (by simp [hmem])) hrest)

/-! ### The fresh interner -/

theorem row_empty (id : TypeId) : Interner.empty.store.row id = none :=
  Store.row_eq_none_of_le _ (Nat.zero_le id)

theorem consed_empty : Interner.empty.Consed structuralHash regular where
  wellFormed := Store.wellFormed_new
  mem_bucket := by
    intro hash id
    simp only [Structural, row_empty, reduceCtorEq, false_and, exists_false, iff_false]
    exact List.not_mem_nil
  nodup_bucket := fun hash => List.nodup_nil
  unique := by
    rintro id id' r r' _ ⟨hrow, _⟩
    rw [row_empty] at hrow
    cases hrow
  canonical := by
    intro id r hrow
    rw [row_empty] at hrow
    cases hrow
  recipes := by
    intro id recipe hrecipe
    have hnone : Interner.empty.store.declaredRecipe id = none := rfl
    rw [hnone] at hrecipe
    cases hrecipe
  literals := by
    intro _ id r hrow
    rw [row_empty] at hrow
    cases hrow
  reserved_row := by
    intro id reserved hres
    cases hres
  reserved_base := by
    intro id reserved hres
    cases hres
  reserved_local := fun id hres => absurd hres Finmap.notMem_empty

theorem steps_internIntrinsics (kinds : List IntrinsicKind) :
    ∀ {σ : Interner} (idOf : IntrinsicKind → TypeId), σ.Consed structuralHash regular →
      Steps structuralHash regular σ (σ.internIntrinsics structuralHash idOf kinds).2 := by
  induction kinds with
  | nil => exact fun _ _ => .refl
  | cons kind kinds ih =>
    intro σ idOf hσ
    have hfirst := (internSpec_internIntrinsic hσ kind).steps
    exact hfirst.trans (ih _ (hσ.steps hfirst))

theorem Consed.withWellKnown (hσ : σ.Consed structuralHash regular) (wellKnown : WellKnown) :
    { σ with wellKnown }.Consed structuralHash regular :=
  hσ.of_same_rows (fun _ => rfl) hσ.wellFormed (fun _ _ h => h) (fun _ _ h => .inl h)
    (fun _ => rfl) (fun _ => rfl) hσ.reserved_base hσ.reserved_local

theorem consed_withIntrinsics : (withIntrinsics structuralHash).Consed structuralHash regular := by
  have hempty : Interner.empty.Consed structuralHash regular := consed_empty
  have hmade := hempty.steps (steps_internIntrinsics IntrinsicKind.all (fun _ => 0) hempty)
  unfold withIntrinsics
  generalize Interner.empty.internIntrinsics structuralHash (fun _ => 0) IntrinsicKind.all = made
    at hmade
  exact hmade.withWellKnown _

/-- **Every reachable interner is hash-consed.** -/
theorem consed_runHistory {fuel : Nat} {history : List InternerOp} {results : List OpResult}
    (hops : ∀ op ∈ history, regular → op.Regular)
    (h : runHistory structuralHash fuel history (withIntrinsics structuralHash)
      = some (results, σ)) : σ.Consed structuralHash regular :=
  consed_withIntrinsics.steps (steps_runHistory consed_withIntrinsics hops h)

theorem Reachable.consed (h : σ.Reachable structuralHash) : σ.Consed structuralHash False := by
  obtain ⟨fuel, history, results, hrun⟩ := h
  exact consed_runHistory (fun _ _ => False.elim) hrun

end Operations

/-! ## §3 Settled rows -/

/-- The row has its final body: it is structural, or its reservation is frozen. -/
def Settled (σ : Interner) (id : TypeId) : Prop :=
  ∀ reserved, σ.reservedType id = some reserved → reserved.state = .frozen

section Settled

variable {σ σ' : Interner} {id : TypeId} {r : Row}

theorem settled_of_reservedType_none (h : σ.reservedType id = none) : σ.Settled id := by
  intro reserved hres
  rw [h] at hres
  cases hres

theorem Settled.of_reservedType_eq (h : σ.Settled id) (heq : σ'.reservedType id = σ.reservedType id) :
    σ'.Settled id := by
  unfold Settled
  rw [heq]
  exact h

section Reserved

variable (hσ : σ.Consed structuralHash regular) (h : CoreStep structuralHash regular σ σ')
include hσ h

/-- What one step does to the reservation and the row of an id that has a row. -/
theorem CoreStep.reservedType_cases (hr : σ.store.row id = some r) :
    (σ'.store.row id = some r ∧ σ'.reservedType id = σ.reservedType id) ∨
    (σ'.store.row id = some r ∧ σ'.reservedType id = none ∧ σ.Settled id) ∨
    (∃ kind, σ.reservedType id = some ⟨kind, .pending⟩) := by
  have hlt := hσ.wellFormed.lt_of_row hr
  cases h with
  | interned h =>
    left
    rw [h.appended.row_old id hlt.ne, h.rest_eq]
    exact ⟨hr, rfl⟩
  | reserved happ _ _ hrest =>
    left
    refine ⟨by rw [happ.row_old id hlt.ne, hr], ?_⟩
    rw [hrest]
    simp [reservedType, Finmap.lookup_insert_of_ne _ hlt.ne]
  | @filled target row kind hpending _ _ hrep hrest =>
    by_cases hid : id = target
    · subst hid
      exact .inr (.inr ⟨kind, hσ.reservedType_of_local hpending⟩)
    · left
      refine ⟨by rw [hrep.row_old id hid, hr], ?_⟩
      rw [hrest]
      simp [reservedType, Finmap.lookup_insert_of_ne _ hid]
  | @promoted target object hfrozen hrow _ hrest =>
    rw [hrest]
    by_cases hid : id = target
    · subst hid
      refine .inr (.inl ⟨hr, ?_, ?_⟩)
      · simp [reservedType, pushCandidate, hσ.reservedBase_of_local hfrozen]
      · intro reserved hres
        rw [hσ.reservedType_of_local hfrozen, some.injEq] at hres
        rw [← hres]
    · left
      refine ⟨hr, ?_⟩
      simp [reservedType, pushCandidate, Finmap.lookup_erase_ne hid]
  | resealed hresealed _ hreserved _ _ _ _ => exact .inl ⟨(hresealed.row_eq id).trans hr, hreserved id⟩
  | side hrow _ _ _ _ _ hbase hlocal _ _ =>
    exact .inl ⟨(hrow id).trans hr, by simp only [reservedType, hbase, hlocal]⟩

theorem CoreStep.settled (hr : σ.store.row id = some r) (hs : σ.Settled id) :
    σ'.store.row id = some r ∧ σ'.Settled id := by
  rcases h.reservedType_cases hσ hr with ⟨hrow, heq⟩ | ⟨hrow, hnone, _⟩ | ⟨kind, hpending⟩
  · exact ⟨hrow, hs.of_reservedType_eq heq⟩
  · exact ⟨hrow, settled_of_reservedType_none hnone⟩
  · exact absurd (hs _ hpending) nofun

theorem CoreStep.structural (hr : σ.Structural id r) :
    σ'.Structural id r := by
  rcases h.reservedType_cases hσ hr.1 with ⟨hrow, heq⟩ | ⟨hrow, hnone, _⟩ | ⟨kind, hpending⟩
  · exact ⟨hrow, heq.trans hr.2⟩
  · exact ⟨hrow, hnone⟩
  · rw [hr.2] at hpending
    cases hpending

end Reserved

/-- **A settled row never changes again.** -/
theorem Steps.settled (hσ : σ.Consed structuralHash regular) (h : Steps structuralHash regular σ σ')
    (hr : σ.store.row id = some r) (hs : σ.Settled id) :
    σ'.store.row id = some r ∧ σ'.Settled id := by
  induction h with
  | refl => exact ⟨hr, hs⟩
  | tail hsteps hstep ih => exact hstep.settled (hσ.steps hsteps) ih.1 ih.2

/-- Structural rows stay structural. -/
theorem Steps.structural (hσ : σ.Consed structuralHash regular)
    (h : Steps structuralHash regular σ σ') (hr : σ.Structural id r) : σ'.Structural id r := by
  induction h with
  | refl => exact hr
  | tail hsteps hstep ih => exact hstep.structural (hσ.steps hsteps) ih

theorem Steps.wellKnown (h : Steps structuralHash regular σ σ') : σ'.wellKnown = σ.wellKnown := by
  induction h with
  | refl => rfl
  | tail _ hstep ih =>
    refine Eq.trans ?_ ih
    cases hstep with
    | interned h => rw [h.rest_eq]; rfl
    | reserved _ _ _ hrest => rw [hrest]
    | filled _ _ _ _ hrest => rw [hrest]
    | promoted _ _ _ hrest => rw [hrest]; rfl
    | resealed _ _ _ _ _ hwk _ => exact hwk
    | side _ _ _ _ _ _ _ _ hwk _ => exact hwk

theorem Steps.recipe (h : Steps structuralHash regular σ σ') {recipe : DeclaredRecipeId}
    {body : DeclaredTypeRecipe} (hbody : σ.store.declaredRecipe recipe = some body) :
    σ'.store.declaredRecipe recipe = some body := by
  induction h with
  | refl => exact hbody
  | tail _ hstep ih =>
    cases hstep with
    | interned h =>
      rw [Store.declaredRecipe, h.appended.recipes_eq]
      exact ih
    | reserved happ _ _ _ =>
      rw [Store.declaredRecipe, happ.recipes_eq]
      exact ih
    | filled _ _ _ hrep _ =>
      rw [Store.declaredRecipe, hrep.recipes_eq]
      exact ih
    | promoted _ _ _ hrest =>
      rw [hrest]
      exact ih
    | resealed hresealed _ _ _ _ _ _ => exact (hresealed.recipes_eq recipe).trans ih
    | side _ hold _ _ _ _ _ _ _ _ => exact hold recipe body ih

theorem Steps.baseLen_le (h : Steps structuralHash regular σ σ') :
    σ.store.baseLen ≤ σ'.store.baseLen := by
  induction h with
  | refl => exact le_rfl
  | tail _ hstep ih =>
    refine ih.trans ?_
    cases hstep with
    | interned h => exact h.appended.baseLen_eq.ge
    | reserved happ _ _ _ => exact happ.baseLen_eq.ge
    | filled _ _ _ hrep _ => exact hrep.baseLen_eq.ge
    | promoted _ _ _ hrest => rw [hrest]; exact le_rfl
    | resealed hresealed _ _ _ _ _ _ =>
      rw [hresealed.baseLen_eq]
      exact Store.baseLen_le_len _
    | side _ _ _ hbaseLen _ _ _ _ _ _ => exact hbaseLen.ge

/-- The rows of the sealed base are settled. -/
theorem Consed.settled_of_lt (hσ : σ.Consed structuralHash regular) (hid : id < σ.store.baseLen) :
    σ.Settled id := by
  intro reserved hres
  unfold reservedType at hres
  cases hbase : σ.reservedTypesBase.lookup id with
  | some sealedType =>
    rw [hbase, some_or, some.injEq] at hres
    rw [← hres]
    exact (hσ.reserved_base id sealedType hbase).2
  | none =>
    rw [hbase, none_or] at hres
    exact absurd (hσ.reserved_local id (Finmap.mem_of_lookup_eq_some hres)) (not_le.mpr hid)

/-- **Whatever extends a settled state goes on extending it.** -/
theorem Extends.steps_of_settled {b : Interner} (h : Extends b σ)
    (hσ : σ.Consed structuralHash regular)
    (hsettled : ∀ id r, b.store.row id = some r → σ.Settled id)
    (hsteps : Steps structuralHash regular σ σ') : Extends b σ' where
  row := fun hr => (Steps.settled hσ hsteps (h.row hr) (hsettled _ _ hr)).1
  structural := fun hr => Steps.structural hσ hsteps (h.structural hr)
  recipe := fun hrecipe => hsteps.recipe (h.recipe hrecipe)
  wellKnown := hsteps.wellKnown.trans h.wellKnown

end Settled

end Interner

end Typokat.Types
