import Typokat.Types.Steps

/-!
# Extensions of an Interner

An interner extends another when it shows all of its rows unchanged.  What the
constructors return is stable: run again on any extension of the state they left, they
find the row they made and change nothing.  Every walk of a substitution is built from
such computations, so a whole walk can be replayed on any extension.

Two interners are alike when they show the same rows, buckets and reservations, however
these are split between a sealed base and a suffix and whatever their caches hold.  The
same computations do the same thing on both.

## Main Results

- `Interner.Extends` : the order
- `Interner.Alike` : the same visible state
- `Interning` : computations that extend the interner, can be replayed, and only depend on
  the visible state
- `interning_rebuild` : every `apply_*` arm re-interns through such a computation
-/

namespace Typokat.Types

open Option Store

variable {structuralHash : StructuralKey → Nat} {regular : Prop}

namespace Interner

/-! ## §1 The order -/

/-- `τ` shows every row of `σ`, and what is structural in `σ` is structural in `τ`. -/
structure Extends (σ τ : Interner) : Prop where
  row : ∀ {id r}, σ.store.row id = some r → τ.store.row id = some r
  structural : ∀ {id r}, σ.Structural id r → τ.Structural id r
  recipe : ∀ {id recipe}, σ.store.declaredRecipe id = some recipe →
    τ.store.declaredRecipe id = some recipe
  wellKnown : τ.wellKnown = σ.wellKnown

theorem Extends.refl (σ : Interner) : Extends σ σ := ⟨id, id, id, rfl⟩

theorem Extends.trans {σ₁ σ₂ σ₃ : Interner} (h₁ : Extends σ₁ σ₂) (h₂ : Extends σ₂ σ₃) :
    Extends σ₁ σ₃ :=
  ⟨fun h => h₂.row (h₁.row h), fun h => h₂.structural (h₁.structural h),
    fun h => h₂.recipe (h₁.recipe h), h₂.wellKnown.trans h₁.wellKnown⟩

variable {σ τ : Interner}

theorem SameCore.extends (h : SameCore σ τ) : Extends σ τ := by
  refine ⟨?_, ?_, ?_, by rw [h]⟩
  · rw [h.store_eq]
    exact id
  · unfold Structural
    rw [h.store_eq, h.reservedType_eq]
    exact id
  · rw [h.store_eq]
    exact id

theorem SameCore.symm (h : SameCore σ τ) : SameCore τ σ := by
  unfold SameCore at *
  rw [h]

theorem Interned.extends (hσ : σ.Consed structuralHash regular) {r : Row}
    (h : Interned structuralHash regular σ τ r) : Extends σ τ where
  row := by
    intro id r' hr'
    rw [h.appended.row_old id (hσ.wellFormed.lt_of_row hr').ne]
    exact hr'
  structural := fun hr' => (h.structural_iff hσ _ _).mpr (.inr hr')
  recipe := by
    intro id recipe hrecipe
    rw [declaredRecipe, h.appended.recipes_eq]
    exact hrecipe
  wellKnown := by
    rw [h.rest_eq]
    rfl

theorem Extends.row_eq (h : Extends σ τ) {id : TypeId} {r : Row} (hr : σ.store.row id = some r) :
    τ.store.row id = σ.store.row id := (h.row hr).trans hr.symm

theorem row_of_tag (hσ : σ.Consed structuralHash regular) {id : TypeId} {tag : TypeTag}
    (h : σ.store.tag id = some tag) : ∃ r, σ.store.row id = some r ∧ r.tag = tag := by
  have hlt : id < σ.store.len := by
    rw [← tag_isSome_iff, h]
    rfl
  obtain ⟨r, hr⟩ := hσ.wellFormed.row_isSome hlt
  rw [tag_of_row hr, some.injEq] at h
  exact ⟨r, hr, h⟩

/-- Tags and entries of a row are the same in an extension. -/
theorem Extends.tag (h : Extends σ τ) (hσ : σ.Consed structuralHash regular) {id : TypeId}
    {tag : TypeTag} (htag : σ.store.tag id = some tag) : τ.store.tag id = some tag := by
  obtain ⟨r, hr, rfl⟩ := row_of_tag hσ htag
  exact tag_of_row (h.row hr)

theorem Extends.entry_eq (h : Extends σ τ) {id : TypeId} {r : Row} (hr : σ.store.row id = some r)
    (t : SideTable) : τ.store.entry t id = σ.store.entry t id :=
  entry_congr (h.row_eq hr) t

theorem Extends.intrinsicKind_eq (h : Extends σ τ) {id : TypeId} {r : Row}
    (hr : σ.store.row id = some r) : τ.store.intrinsicKind id = σ.store.intrinsicKind id := by
  refine ext (fun kind => ?_)
  have hσ := decides_intrinsic (s := σ.store) kind id
  have hτ := decides_intrinsic (s := τ.store) kind id
  simp only [beq_iff_eq] at hσ hτ
  rw [hσ, hτ, h.row_eq hr]

/-- `τ` shows the state `σ` shows. -/
structure Alike (σ τ : Interner) : Prop where
  len : τ.store.len = σ.store.len
  row : ∀ id, τ.store.row id = σ.store.row id
  bucket : ∀ hash, τ.bucket hash = σ.bucket hash
  reservedType : ∀ id, τ.reservedType id = σ.reservedType id
  declaredRecipe : ∀ id, τ.store.declaredRecipe id = σ.store.declaredRecipe id
  recipesLen : τ.store.declaredRecipes.len = σ.store.declaredRecipes.len
  recipeIndex : ∀ recipe,
    (τ.declaredRecipeLocal.lookup recipe).or (τ.declaredRecipeBase.lookup recipe)
      = (σ.declaredRecipeLocal.lookup recipe).or (σ.declaredRecipeBase.lookup recipe)
  name : ∀ id, τ.store.typeParamNames.get id = σ.store.typeParamNames.get id
  constraint : ∀ id, τ.store.typeParamConstraint id = σ.store.typeParamConstraint id
  wellKnown : τ.wellKnown = σ.wellKnown

namespace Alike

variable {υ : Interner}

theorem refl (σ : Interner) : Alike σ σ :=
  ⟨rfl, fun _ => rfl, fun _ => rfl, fun _ => rfl, fun _ => rfl, rfl, fun _ => rfl, fun _ => rfl,
    fun _ => rfl, rfl⟩

theorem symm (h : Alike σ τ) : Alike τ σ :=
  ⟨h.len.symm, fun id => (h.row id).symm, fun hash => (h.bucket hash).symm,
    fun id => (h.reservedType id).symm, fun id => (h.declaredRecipe id).symm, h.recipesLen.symm,
    fun recipe => (h.recipeIndex recipe).symm, fun id => (h.name id).symm,
    fun id => (h.constraint id).symm, h.wellKnown.symm⟩

theorem trans (h₁ : Alike σ τ) (h₂ : Alike τ υ) : Alike σ υ :=
  ⟨h₂.len.trans h₁.len, fun id => (h₂.row id).trans (h₁.row id),
    fun hash => (h₂.bucket hash).trans (h₁.bucket hash),
    fun id => (h₂.reservedType id).trans (h₁.reservedType id),
    fun id => (h₂.declaredRecipe id).trans (h₁.declaredRecipe id),
    h₂.recipesLen.trans h₁.recipesLen,
    fun recipe => (h₂.recipeIndex recipe).trans (h₁.recipeIndex recipe),
    fun id => (h₂.name id).trans (h₁.name id),
    fun id => (h₂.constraint id).trans (h₁.constraint id), h₂.wellKnown.trans h₁.wellKnown⟩

theorem of_sameCore (h : SameCore σ τ) : Alike σ τ := by
  rw [h]
  exact ⟨rfl, fun _ => rfl, fun _ => rfl, fun _ => rfl, fun _ => rfl, rfl, fun _ => rfl,
    fun _ => rfl, fun _ => rfl, rfl⟩

theorem structural (h : Alike σ τ) {id : TypeId} {r : Row} (hr : σ.Structural id r) :
    τ.Structural id r := by
  unfold Structural at hr ⊢
  rw [h.row, h.reservedType]
  exact hr

theorem «extends» (h : Alike σ τ) : Extends σ τ where
  row := fun hr => (h.row _).trans hr
  structural := h.structural
  recipe := fun hrecipe => (h.declaredRecipe _).trans hrecipe
  wellKnown := h.wellKnown

/-- Adding the same row to both keeps them alike. -/
theorem appended (h : Alike σ τ) {s t : Store} {r : Row} (hσ : Store.Appended σ.store s r)
    (hτ : Store.Appended τ.store t r)
    (hname : ∀ id, t.typeParamNames.get id = s.typeParamNames.get id) :
    Alike { σ with store := s } { τ with store := t } where
  len := by
    show t.len = s.len
    rw [hτ.len_eq, hσ.len_eq, h.len]
  row := by
    intro id
    show t.row id = s.row id
    by_cases hid : id = σ.store.len
    · subst hid
      rw [hσ.row_new, ← h.len, hτ.row_new]
    · rw [hσ.row_old id hid, hτ.row_old id (h.len ▸ hid), h.row]
  bucket := h.bucket
  reservedType := h.reservedType
  declaredRecipe := by
    intro id
    show t.declaredRecipe id = s.declaredRecipe id
    rw [Store.declaredRecipe, Store.declaredRecipe, hσ.recipes_eq, hτ.recipes_eq]
    exact h.declaredRecipe id
  recipesLen := by
    show t.declaredRecipes.len = s.declaredRecipes.len
    rw [hσ.recipes_eq, hτ.recipes_eq, h.recipesLen]
  recipeIndex := h.recipeIndex
  name := hname
  constraint := by
    intro id
    show t.typeParamConstraint id = s.typeParamConstraint id
    rw [typeParamConstraint, typeParamConstraint, hσ.constraints_eq, hτ.constraints_eq]
    exact h.constraint id
  wellKnown := h.wellKnown

/-- Making the same id a candidate of the same hash keeps them alike. -/
theorem pushCandidate (h : Alike σ τ) (hash : Nat) (id : TypeId) :
    Alike (σ.pushCandidate hash id) (τ.pushCandidate hash id) :=
  { h with
    bucket := fun other => by rw [bucket_pushCandidate, bucket_pushCandidate, h.bucket] }

theorem interned (h : Alike σ τ) {σ' τ' : Interner} {r : Row}
    (hσ : Interned structuralHash regular σ σ' r) (hτ : Interned structuralHash regular τ τ' r)
    (hname : ∀ id, τ'.store.typeParamNames.get id = σ'.store.typeParamNames.get id) :
    Alike σ' τ' := by
  have hpushed := (h.pushCandidate (structuralHash r.key) σ.store.len).appended
    (σ := σ.pushCandidate (structuralHash r.key) σ.store.len)
    (τ := τ.pushCandidate (structuralHash r.key) σ.store.len) hσ.appended hτ.appended hname
  rw [hσ.rest_eq, hτ.rest_eq, h.len]
  exact hpushed

/-- A constructor decides the same on both, and adds the same row. -/
theorem internSpec (h : Alike σ τ) (hτ : τ.Consed structuralHash regular) {key : StructuralKey}
    {result result' : TypeId × Interner} (hexact : key.tag.Exact regular)
    (hspec : InternSpec structuralHash regular σ key result)
    (hspec' : InternSpec structuralHash regular τ key result') (hkey : key.tag ≠ .typeParam) :
    result'.1 = result.1 ∧ Alike result.2 result'.2 := by
  have hexact_of : ∀ {r : Row}, r.key = key → r.tag.Exact regular := by
    rintro r rfl
    rw [← Row.tag_key]
    exact hexact
  rcases hspec with ⟨hsame, r, hr, hrkey⟩ | ⟨r, hrkey, hid, hint⟩ <;>
    rcases hspec' with ⟨hsame', r', hr', hrkey'⟩ | ⟨r', hrkey', hid', hint'⟩
  · have hid : result'.1 = result.1 :=
      hτ.unique _ _ r' r (hexact_of (hrkey' hexact)) hr' (h.structural hr)
        ((hrkey' hexact).trans (hrkey hexact).symm)
    rw [hsame, hsame']
    exact ⟨hid, h⟩
  · exact absurd ((hrkey hexact).trans hrkey'.symm)
      (hint'.fresh (hexact_of hrkey') _ r (h.structural hr))
  · exact absurd ((hrkey' hexact).trans hrkey.symm)
      (hint.fresh (hexact_of hrkey) _ r' (h.symm.structural hr'))
  · have htag : r.tag ≠ .typeParam := by
      rw [← Row.tag_key, hrkey]
      exact hkey
    obtain rfl : r = r' := Row.eq_of_key_eq (hrkey.trans hrkey'.symm) htag
    refine ⟨by rw [hid, hid', h.len], h.interned hint hint' (fun id => ?_)⟩
    rw [hint.appended.names_eq htag, hint'.appended.names_eq htag, h.name]

end Alike

/-- Core steps that only add rows and keep the identity of the graph. -/
structure Grows (structuralHash : StructuralKey → Nat) (regular : Prop) (σ τ : Interner) : Prop where
  steps : Steps structuralHash regular σ τ
  grown : Extends σ τ
  identity : τ.store.semanticGraphIdentity = σ.store.semanticGraphIdentity

namespace Grows

variable {υ : Interner}

theorem refl (σ : Interner) : Grows structuralHash regular σ σ := ⟨.refl, .refl σ, rfl⟩

theorem trans (h₁ : Grows structuralHash regular σ τ) (h₂ : Grows structuralHash regular τ υ) :
    Grows structuralHash regular σ υ :=
  ⟨h₁.steps.trans h₂.steps, h₁.grown.trans h₂.grown, h₂.identity.trans h₁.identity⟩

theorem consed (h : Grows structuralHash regular σ τ) (hσ : σ.Consed structuralHash regular) :
    τ.Consed structuralHash regular := hσ.steps h.steps

theorem of_sameCore (hσ : σ.Consed structuralHash regular) (h : SameCore σ τ) :
    Grows structuralHash regular σ τ :=
  ⟨.single (h.step hσ), h.extends, by rw [h.store_eq]⟩

theorem of_internSpec (hσ : σ.Consed structuralHash regular) {key : StructuralKey}
    {result : TypeId × Interner} (h : InternSpec structuralHash regular σ key result) :
    Grows structuralHash regular σ result.2 := by
  rcases id h with ⟨hsame, _⟩ | ⟨r, _, _, hint⟩
  · rw [hsame]
    exact .refl σ
  · exact ⟨h.steps, hint.extends hσ, hint.appended.identity_eq⟩

end Grows

theorem SameCaches.of_internSpec {key : StructuralKey} {result : TypeId × Interner}
    (h : InternSpec structuralHash regular σ key result) : SameCaches σ result.2 := by
  rcases h with ⟨hsame, _⟩ | ⟨r, _, _, hint⟩
  · rw [hsame]
    exact .refl σ
  · rw [hint.rest_eq]
    exact ⟨rfl, rfl, rfl⟩

/-! ## §2 Computations that can be replayed -/

/-- The computation extended the interner to its result; on every extension of that it returns
    the same value and changes nothing, and on every interner alike it does the same. -/
structure Replayable (structuralHash : StructuralKey → Nat) (regular : Prop) {A : Type}
    (σ : Interner) (f : Interner → Option (A × Interner)) (result : A × Interner) : Prop where
  grows : Grows structuralHash regular σ result.2
  caches : SameCaches σ result.2
  replay : ∀ τ, τ.Consed structuralHash regular → Extends result.2 τ → f τ = some (result.1, τ)
  alike : ∀ τ, τ.Consed structuralHash regular → Alike σ τ →
    ∃ τ', f τ = some (result.1, τ') ∧ Alike result.2 τ'

/-- What the computation does from `σ` can be replayed. -/
def InterningAt (structuralHash : StructuralKey → Nat) (regular : Prop) {A : Type} (σ : Interner)
    (f : Interner → Option (A × Interner)) : Prop :=
  ∀ result, f σ = some result → Replayable structuralHash regular σ f result

/-- The computation can be replayed, from wherever it started. -/
def Interning (structuralHash : StructuralKey → Nat) (regular : Prop) {A : Type}
    (f : Interner → Option (A × Interner)) : Prop :=
  ∀ σ, σ.Consed structuralHash regular → InterningAt structuralHash regular σ f

theorem interningAt_intern {key : StructuralKey} {f : Interner → TypeId × Interner}
    (hσ : σ.Consed structuralHash regular)
    (h : ∀ τ : Interner, τ.Consed structuralHash regular → Extends σ τ →
      InternSpec structuralHash regular τ key (f τ))
    (hkey : key.tag ≠ .literal) (hname : key.tag ≠ .typeParam) :
    InterningAt structuralHash regular σ (fun σ => some (f σ)) := by
  have hexact : key.tag.Exact regular := TypeTag.exact_of_ne hkey
  have hspec := h σ hσ (.refl σ)
  rintro result heq
  cases heq
  -- either way the result is a structural row with the key
  obtain ⟨r, hr, hrkey⟩ : ∃ r, (f σ).2.Structural (f σ).1 r ∧ r.key = key := by
    rcases hspec with ⟨hsame, r, hr, hrkey⟩ | ⟨r, hrkey, hid, hint⟩
    · rw [hsame]
      exact ⟨r, hr, hrkey hexact⟩
    · exact ⟨r, (hint.structural_iff hσ _ _).mpr (.inl ⟨hid, rfl⟩), hrkey⟩
  have hgrow := Grows.of_internSpec hσ hspec
  have hext := hgrow.grown
  refine ⟨hgrow, .of_internSpec hspec, fun τ hτ hτext => ?_, fun τ hτ halike => ?_⟩
  case refine_2 =>
    obtain ⟨hid, halike'⟩ :=
      halike.internSpec hτ hexact hspec (h τ hτ halike.extends) hname
    exact ⟨(f τ).2, congrArg some (Prod.ext hid rfl), halike'⟩
  have hrτ := hτext.structural hr
  rcases h τ hτ (hext.trans hτext) with ⟨hsame, r', hr', hrkey'⟩ | ⟨r', hrkey', _, hint⟩
  · have hid : (f τ).1 = (f σ).1 := by
      refine hτ.unique _ _ r' r ?_ hr' hrτ ((hrkey' hexact).trans hrkey.symm)
      rw [← Row.tag_key, hrkey' hexact]
      exact hexact
    exact congrArg some (Prod.ext hid hsame)
  · refine absurd (hrkey.trans hrkey'.symm) (hint.fresh ?_ _ r hrτ)
    rw [← Row.tag_key, hrkey']
    exact hexact

theorem interning_intern {key : StructuralKey} {f : Interner → TypeId × Interner}
    (h : ∀ σ : Interner, σ.Consed structuralHash regular →
      InternSpec structuralHash regular σ key (f σ))
    (hkey : key.tag ≠ .literal) (hname : key.tag ≠ .typeParam) :
    Interning structuralHash regular (fun σ => some (f σ)) :=
  fun _ hσ => interningAt_intern hσ (fun τ hτ _ => h τ hτ) hkey hname

/-- Only the behaviour on extensions matters. -/
theorem InterningAt.congr {A : Type} {f g : Interner → Option (A × Interner)}
    (hfg : ∀ τ, Extends σ τ → f τ = g τ) (hg : InterningAt structuralHash regular σ g) :
    InterningAt structuralHash regular σ f := by
  intro result heq
  rw [hfg σ (.refl σ)] at heq
  obtain ⟨hgrow, hcaches, hreplay, halike⟩ := hg result heq
  refine ⟨hgrow, hcaches, fun τ hτ hτext => ?_, fun τ hτ h => ?_⟩
  · rw [hfg τ (hgrow.grown.trans hτext)]
    exact hreplay τ hτ hτext
  · rw [hfg τ h.extends]
    exact halike τ hτ h

theorem interning_pure {A : Type} (a : A) :
    Interning structuralHash regular (fun σ => some (a, σ)) := by
  rintro σ hσ result heq
  cases heq
  exact ⟨.refl σ, .refl σ, fun τ _ _ => rfl, fun τ _ h => ⟨τ, rfl, h⟩⟩

theorem interning_none {A : Type} :
    Interning structuralHash regular (fun _ => (none : Option (A × Interner))) := by
  rintro σ hσ result heq
  cases heq

theorem Interning.bind {A B : Type} {f : Interner → Option (A × Interner)}
    {g : A → Interner → Option (B × Interner)} (hf : Interning structuralHash regular f)
    (hg : ∀ a, Interning structuralHash regular (g a)) :
    Interning structuralHash regular (fun σ => (f σ).bind (fun result => g result.1 result.2)) := by
  intro σ hσ result heq
  obtain ⟨⟨a, σ₁⟩, hfσ, hgσ⟩ := bind_eq_some_iff.mp heq
  obtain ⟨hgrow₁, hcaches₁, hreplay₁, halike₁⟩ := hf σ hσ (a, σ₁) hfσ
  obtain ⟨hgrow₂, hcaches₂, hreplay₂, halike₂⟩ := hg a σ₁ (hgrow₁.consed hσ) result hgσ
  refine ⟨hgrow₁.trans hgrow₂, hcaches₁.trans hcaches₂, fun τ hτ hτext => ?_, fun τ hτ h => ?_⟩
  · show (f τ).bind _ = _
    rw [hreplay₁ τ hτ (hgrow₂.grown.trans hτext)]
    exact hreplay₂ τ hτ hτext
  · obtain ⟨τ₁, hfτ, h₁⟩ := halike₁ τ hτ h
    have hτ₁ : τ₁.Consed structuralHash regular := (hf τ hτ _ hfτ).grows.consed hτ
    obtain ⟨τ₂, hgτ, h₂⟩ := halike₂ τ₁ hτ₁ h₁
    refine ⟨τ₂, ?_, h₂⟩
    show (f τ).bind _ = _
    rw [hfτ]
    exact hgτ

/-- A read of the interner whose answer no extension changes. -/
def Stable (structuralHash : StructuralKey → Nat) (regular : Prop) {A : Type}
    (f : Interner → Option A) : Prop :=
  ∀ σ a τ, σ.Consed structuralHash regular → τ.Consed structuralHash regular →
    f σ = some a → Extends σ τ → f τ = some a

theorem Interning.bind_stable {A B : Type} {f : Interner → Option A}
    {g : A → Interner → Option (B × Interner)} (hf : Stable structuralHash regular f)
    (hg : ∀ σ a, f σ = some a → Interning structuralHash regular (g a)) :
    Interning structuralHash regular (fun σ => (f σ).bind (fun a => g a σ)) := by
  intro σ hσ result heq
  obtain ⟨a, hfσ, hgσ⟩ := bind_eq_some_iff.mp heq
  obtain ⟨hgrow, hcaches, hreplay, halike⟩ := hg σ a hfσ σ hσ result hgσ
  refine ⟨hgrow, hcaches, fun τ hτ hτext => ?_, fun τ hτ h => ?_⟩
  · show (f τ).bind _ = _
    rw [hf σ a τ hσ hτ hfσ (hgrow.grown.trans hτext)]
    exact hreplay τ hτ hτext
  · show ∃ τ', (f τ).bind _ = _ ∧ _
    rw [hf σ a τ hσ hτ hfσ h.extends]
    exact halike τ hτ h

/-! ## §3 Set types -/

variable {nested : Store → TypeId → Option (List TypeId)}

theorem flatten_extends (hσ : σ.Consed structuralHash regular) (h : Extends σ τ)
    (hnested : ∀ id r, σ.store.row id = some r → nested τ.store id = nested σ.store id)
    {fuel : Nat} {members flat result : List TypeId}
    (hσr : flatten σ.store (nested σ.store) fuel members flat = some result) :
    flatten τ.store (nested τ.store) fuel members flat = some result := by
  induction fuel generalizing members flat with
  | zero =>
    unfold flatten at hσr ⊢
    split at hσr
    · exact hσr
    · cases hσr
  | succ fuel ih =>
    unfold flatten at hσr ⊢
    split at hσr
    · exact hσr
    · rename_i member _
      cases htag : σ.store.tag member with
      | none =>
        rw [htag] at hσr
        cases hσr
      | some tag =>
        obtain ⟨r, hr, _⟩ := row_of_tag hσ htag
        rw [htag] at hσr
        rw [h.tag hσ htag]
        dsimp only at hσr ⊢
        rw [hnested member r hr]
        split at hσr <;> exact ih hσr

/-- Every member of a list that was flattened denotes a row. -/
theorem tag_of_flatten {s : Store} {nested : TypeId → Option (List TypeId)} {fuel : Nat}
    {members flat result : List TypeId} (h : flatten s nested fuel members flat = some result) :
    ∀ member ∈ members, ∃ tag, s.tag member = some tag := by
  induction fuel generalizing members flat with
  | zero =>
    unfold flatten at h
    split at h
    · rename_i hnil
      rw [List.getLast?_eq_none_iff.mp hnil]
      simp
    · cases h
  | succ fuel ih =>
    unfold flatten at h
    split at h
    · rename_i hnil
      rw [List.getLast?_eq_none_iff.mp hnil]
      simp
    · rename_i last hlast
      cases htag : s.tag last with
      | none =>
        rw [htag] at h
        cases h
      | some tag =>
        rw [htag] at h
        dsimp only at h
        intro member hmem
        rw [← List.dropLast_append_getLast? last hlast, List.mem_append] at hmem
        rcases hmem with hmem | hmem
        · split at h
          · exact ih h member (List.mem_append_left _ hmem)
          · exact ih h member hmem
        · rw [List.mem_singleton.mp hmem]
          exact ⟨tag, htag⟩

theorem flattenFuel_congr {nested nested' : TypeId → Option (List TypeId)} {members : List TypeId}
    (h : ∀ member ∈ members, nested' member = nested member) :
    flattenFuel nested' members = flattenFuel nested members := by
  unfold flattenFuel
  congr 1
  exact List.map_congr_left (fun member hmem => by rw [h member hmem])

theorem Store.FlatMember.mono (hσ : σ.Consed structuralHash regular) (h : Extends σ τ)
    {tag : TypeTag} {member : TypeId} (hm : σ.store.FlatMember tag member) :
    τ.store.FlatMember tag member := by
  obtain ⟨other, hother, hne⟩ := hm
  exact ⟨other, h.tag hσ hother, hne⟩

/-- The members a set type flattens to are the same in an extension. -/
theorem flattenMembers_extends (hσ : σ.Consed structuralHash regular) (h : Extends σ τ)
    (hnested : ∀ id r, σ.store.row id = some r → nested τ.store id = nested σ.store id)
    {members flat : List TypeId} (hflat : σ.flattenMembers nested members = some flat) :
    τ.flattenMembers nested members = some flat := by
  unfold flattenMembers at *
  have hfuel : flattenFuel (nested τ.store) members = flattenFuel (nested σ.store) members := by
    refine flattenFuel_congr (fun member hmem => ?_)
    obtain ⟨tag, htag⟩ := tag_of_flatten hflat member hmem
    obtain ⟨r, hr, _⟩ := row_of_tag hσ htag
    exact hnested member r hr
  rw [hfuel]
  exact flatten_extends hσ h hnested hflat

/-- **A union can be replayed.** -/
theorem interning_union (members : List TypeId) :
    Interning structuralHash regular (fun σ => σ.union structuralHash members) := by
  intro σ hσ
  cases hflatten : σ.flattenMembers unionMembers members with
  | none =>
    intro result heq
    simp only [union, hflatten, map_none, reduceCtorEq] at heq
  | some flat =>
    have hflat := flatMember_of_flattenMembers hσ.wellFormed .unions (fun _ hnone => hnone) hflatten
    have hunion : ∀ τ, Extends σ τ → τ.union structuralHash members
        = some (τ.unionOfFlat structuralHash flat) := by
      intro τ hext
      rw [union, flattenMembers_extends hσ hext (fun id r hr => hext.entry_eq hr .unions) hflatten]
      rfl
    refine .congr hunion ?_
    -- the decisions after flattening read nothing but the well-known ids
    unfold unionOfFlat
    by_cases htop : flat.any (fun m => m == σ.wellKnown.any || m == σ.wellKnown.error) = true
    · exact .congr (fun τ hext => by rw [hext.wellKnown, if_pos htop])
        (interning_pure σ.wellKnown.any σ hσ)
    · by_cases hunknown : flat.contains σ.wellKnown.unknown = true
      · exact .congr (fun τ hext => by rw [hext.wellKnown, if_neg htop, if_pos hunknown])
          (interning_pure σ.wellKnown.unknown σ hσ)
      · refine .congr (fun τ hext => by rw [hext.wellKnown, if_neg htop, if_neg hunknown]) ?_
        cases hcanonical : sortDedup (flat.filter (fun m => m != σ.wellKnown.never)) with
        | nil => exact interning_pure σ.wellKnown.never σ hσ
        | cons first rest =>
          cases rest with
          | nil => exact interning_pure first σ hσ
          | cons second rest =>
            refine interningAt_intern hσ
              (fun τ hτ hext => internSpec_internUnion hτ ?_) nofun nofun
            rw [← hcanonical]
            refine setMembers_sortDedup (fun member hmem => ?_) (by simp [hcanonical])
              (by simp [hcanonical])
            exact Store.FlatMember.mono hσ hext (hflat member hmem)

/-! ### Disjointness -/

theorem all_congr_of_mem {α : Type} {xs : List α} {p q : α → Bool} (h : ∀ x ∈ xs, p x = q x) :
    xs.all p = xs.all q := by
  rw [Bool.eq_iff_iff]
  simp only [List.all_eq_true]
  exact forall₂_congr (fun x hx => by rw [h x hx])

theorem any_congr_of_mem {α : Type} {xs : List α} {p q : α → Bool} (h : ∀ x ∈ xs, p x = q x) :
    xs.any p = xs.any q := by
  rw [List.any_eq_not_all_not, List.any_eq_not_all_not]
  rw [all_congr_of_mem (fun x hx => by rw [h x hx])]

theorem disjointDomain_extends (h : Extends σ τ) {id : TypeId} {r : Row}
    (hr : σ.store.row id = some r) :
    disjointDomain τ.store id = disjointDomain σ.store id := by
  unfold disjointDomain literalValue
  rw [h.intrinsicKind_eq hr, h.entry_eq hr]

theorem disjointLeaves_extends (h : Extends σ τ) {left right : TypeId} {r r' : Row}
    (hl : σ.store.row left = some r) (hr : σ.store.row right = some r') :
    disjointLeaves τ.store left right = disjointLeaves σ.store left right := by
  unfold disjointLeaves literalValue
  rw [disjointDomain_extends h hl, disjointDomain_extends h hr, h.entry_eq hl, h.entry_eq hr]

/-- The members of a union row denote rows. -/
theorem row_of_unionMembers (hσ : σ.Consed structuralHash regular) {id : TypeId}
    {members : List TypeId} (h : σ.store.unionMembers id = some members) :
    ∀ member ∈ members, ∃ r, σ.store.row member = some r := by
  intro member hmem
  have hrow := (σ.store.entry_eq_some_iff .unions id members).mp h
  obtain ⟨tag, htag, _⟩ := (hσ.canonical id _ hrow).flat member hmem
  obtain ⟨r, hr, _⟩ := row_of_tag hσ htag
  exact ⟨r, hr⟩

theorem definitelyDisjoint_extends (hσ : σ.Consed structuralHash regular) (h : Extends σ τ)
    (fuel : Nat) {left right : TypeId} {r r' : Row} (hl : σ.store.row left = some r)
    (hr : σ.store.row right = some r') :
    definitelyDisjoint τ.store fuel left right = definitelyDisjoint σ.store fuel left right := by
  induction fuel generalizing left right r r' with
  | zero => exact disjointLeaves_extends h hl hr
  | succ fuel ih =>
    have hleft : τ.store.unionMembers left = σ.store.unionMembers left := h.entry_eq hl .unions
    have hright : τ.store.unionMembers right = σ.store.unionMembers right := h.entry_eq hr .unions
    unfold definitelyDisjoint
    rw [hleft, hright, disjointLeaves_extends h hl hr]
    cases hleft' : σ.store.unionMembers left with
    | some members =>
      dsimp only
      congr 1
      refine all_congr_of_mem (fun member hmem => ?_)
      obtain ⟨r'', hr''⟩ := row_of_unionMembers hσ hleft' member hmem
      exact ih hr'' hr
    | none =>
      cases hright' : σ.store.unionMembers right with
      | some members =>
        dsimp only
        congr 1
        refine all_congr_of_mem (fun member hmem => ?_)
        obtain ⟨r'', hr''⟩ := row_of_unionMembers hσ hright' member hmem
        exact ih hl hr''
      | none => rfl

theorem hasNoDomain_extends (h : Extends σ τ) {id : TypeId} {r : Row} (hr : σ.store.row id = some r) :
    hasNoDomain τ.store id = hasNoDomain σ.store id := by
  unfold hasNoDomain unionMembers
  rw [disjointDomain_extends h hr, h.entry_eq hr]

theorem hasDefinitelyDisjointMembers_extends (hσ : σ.Consed structuralHash regular)
    (h : Extends σ τ) {members : List TypeId}
    (hrows : ∀ member ∈ members, ∃ r, σ.store.row member = some r) :
    hasDefinitelyDisjointMembers τ.store members
      = hasDefinitelyDisjointMembers σ.store members := by
  induction members with
  | nil => rfl
  | cons left rest ih =>
    obtain ⟨r, hr⟩ := hrows left (by simp)
    have hrest : ∀ member ∈ rest, ∃ r, σ.store.row member = some r :=
      fun member hmem => hrows member (List.mem_cons_of_mem _ hmem)
    unfold hasDefinitelyDisjointMembers
    rw [ih hrest, hasNoDomain_extends h hr]
    congr 2
    refine any_congr_of_mem (fun right hmem => ?_)
    obtain ⟨r', hr'⟩ := hrest right hmem
    rw [hasNoDomain_extends h hr', definitelyDisjoint_extends hσ h 2 hr hr']

/-- **An intersection can be replayed.** -/
theorem interning_intersection (members : List TypeId) :
    Interning structuralHash regular (fun σ => σ.intersection structuralHash members) := by
  intro σ hσ
  cases hflatten : σ.flattenMembers intersectionMembers members with
  | none =>
    intro result heq
    simp only [intersection, hflatten, map_none, reduceCtorEq] at heq
  | some flat =>
    have hflat := flatMember_of_flattenMembers hσ.wellFormed .intersections
      (fun _ hnone => hnone) hflatten
    have hintersection : ∀ τ, Extends σ τ → τ.intersection structuralHash members
        = some (τ.intersectionOfFlat structuralHash flat) := by
      intro τ hext
      rw [intersection,
        flattenMembers_extends hσ hext (fun id r hr => hext.entry_eq hr .intersections) hflatten]
      rfl
    refine .congr hintersection ?_
    have hmembers : ∀ member ∈ sortDedup (flat.filter (fun m => m != σ.wellKnown.unknown)),
        σ.store.FlatMember .intersection member :=
      fun member hmem => hflat member (mem_of_mem_sortDedup_filter hmem)
    -- the test reads only rows that are there already
    have hdisjoint : ∀ τ, Extends σ τ → hasDefinitelyDisjointMembers τ.store
        (sortDedup (flat.filter (fun m => m != σ.wellKnown.unknown)))
        = hasDefinitelyDisjointMembers σ.store
          (sortDedup (flat.filter (fun m => m != σ.wellKnown.unknown))) := by
      intro τ hext
      refine hasDefinitelyDisjointMembers_extends hσ hext (fun member hmem => ?_)
      obtain ⟨tag, htag, _⟩ := hmembers member hmem
      obtain ⟨r, hr, _⟩ := row_of_tag hσ htag
      exact ⟨r, hr⟩
    unfold intersectionOfFlat
    dsimp only
    by_cases herror : flat.contains σ.wellKnown.error = true
    · exact .congr (fun τ hext => by rw [hext.wellKnown, if_pos herror])
        (interning_pure σ.wellKnown.any σ hσ)
    by_cases hnever : flat.contains σ.wellKnown.never = true
    · exact .congr (fun τ hext => by rw [hext.wellKnown, if_neg herror, if_pos hnever])
        (interning_pure σ.wellKnown.never σ hσ)
    by_cases hany : flat.contains σ.wellKnown.any = true
    · exact .congr
        (fun τ hext => by rw [hext.wellKnown, if_neg herror, if_neg hnever, if_pos hany])
        (interning_pure σ.wellKnown.any σ hσ)
    refine .congr (fun τ hext => by
      rw [hext.wellKnown, if_neg herror, if_neg hnever, if_neg hany, hdisjoint τ hext]) ?_
    cases hasDefinitelyDisjointMembers σ.store
        (sortDedup (flat.filter (fun m => m != σ.wellKnown.unknown))) with
    | true => exact interning_pure σ.wellKnown.never σ hσ
    | false =>
      cases hcanonical : sortDedup (flat.filter (fun m => m != σ.wellKnown.unknown)) with
      | nil => exact interning_pure σ.wellKnown.unknown σ hσ
      | cons first rest =>
        cases rest with
        | nil => exact interning_pure first σ hσ
        | cons second rest =>
          refine interningAt_intern hσ
            (fun τ hτ hext => internSpec_internIntersection hτ ?_) nofun nofun
          rw [← hcanonical]
          refine setMembers_sortDedup (fun member hmem => ?_) (by simp [hcanonical])
            (by simp [hcanonical])
          exact Store.FlatMember.mono hσ hext (hflat member hmem)

theorem interning_internDeclared (recipe : DeclaredRecipeId) (mapper : List (TypeParamId × TypeId)) :
    Interning structuralHash regular
      (fun σ => σ.internDeclared structuralHash recipe mapper) := by
  intro σ hσ
  cases hrecipe : σ.store.declaredRecipe recipe with
  | none =>
    intro result heq
    simp only [internDeclared, hrecipe, map_none, reduceCtorEq] at heq
  | some body =>
    refine .congr (fun τ hext => by rw [internDeclared, hext.recipe hrecipe, map_some]) ?_
    exact interningAt_intern hσ
      (fun τ hτ hext => internSpec_internDeclaredType hτ (hext.recipe hrecipe) mapper) nofun nofun

end Interner

/-! ## §4 The arms of a substitution -/

section Arms

open Interner

variable {σ τ : Interner} {map : FxHashMap TypeParamId TypeId} {blocked : FxHashSet TypeParamId}

/-- The guard of a conditional defers, or lets the plain rewrite through. -/
theorem dispatchConditional_cases {body : ConditionalType} {d : Dispatch}
    (h : dispatchConditional structuralHash map σ body = some d) :
    d = .defer ∨ d = .rewrite (applyConditional structuralHash body) := by
  unfold dispatchConditional at h
  split at h
  · obtain ⟨naked, _, h⟩ := bind_eq_some_iff.mp h
    split at h
    · obtain ⟨distributes, _, h⟩ := bind_eq_some_iff.mp h
      split at h
      · cases h
        exact .inl rfl
      · cases h
        exact .inr rfl
    · cases h
      exact .inr rfl
  · cases h
    exact .inr rfl

/-- The guard of a homomorphic map distributes, or lets the plain rewrite through. -/
theorem dispatchMapped_cases {body : MappedType} {d : Dispatch}
    (h : dispatchMapped structuralHash map σ body = some d) :
    d = .done σ.wellKnown.never ∨ (∃ param members, d = .distribute param members) ∨
      d = .rewrite (applyMapped structuralHash body) := by
  unfold dispatchMapped at h
  split at h
  · obtain ⟨naked, _, h⟩ := bind_eq_some_iff.mp h
    split at h
    · split at h
      · cases h
        exact .inl rfl
      · obtain ⟨tag, _, h⟩ := bind_eq_some_iff.mp h
        split at h
        · cases h
          exact .inr (.inl ⟨_, _, rfl⟩)
        · cases h
          exact .inr (.inr rfl)
    · cases h
      exact .inr (.inr rfl)
  · cases h
    exact .inr (.inr rfl)

section Rewrites

variable {interner : Interner} {ty : TypeId} {row : Row} {arm : Arm}
  (h : dispatch structuralHash map blocked interner ty row = some (.rewrite arm))
  (new : List TypeId)
include h new

/-- Every arm re-interns through a computation that can be replayed. -/
theorem interning_rebuild : Interning structuralHash regular (arm.rebuild new) := by
  cases row <;> simp only [dispatch, some.injEq, reduceCtorEq, Dispatch.rewrite.injEq] at h
  case object body =>
    subst h
    exact interning_intern (fun σ hσ => internSpec_internObject hσ _) nofun nofun
  case function body =>
    subst h
    exact interning_intern (fun σ hσ => internSpec_internFunction hσ _) nofun nofun
  case union members =>
    subst h
    exact interning_union new
  case intersection members =>
    subst h
    exact interning_intersection new
  case array element =>
    subst h
    exact interning_intern (fun σ hσ => internSpec_internArray hσ _) nofun nofun
  case tuple body =>
    subst h
    exact interning_intern (fun σ hσ => internSpec_internTupleType hσ _) nofun nofun
  case readonly operand =>
    subst h
    exact interning_intern (fun σ hσ => internSpec_internReadonly hσ _) nofun nofun
  case conditional body =>
    rcases dispatchConditional_cases h with h | h
    · cases h
    · cases h
      exact interning_intern (fun σ hσ => internSpec_internConditional hσ _) nofun nofun
  case instantiation body =>
    subst h
    exact interning_intern (fun σ hσ => internSpec_internInstantiation hσ _ _) nofun nofun
  case classInstance body =>
    subst h
    exact interning_intern (fun σ hσ => internSpec_internClassInstance hσ _ _) nofun nofun
  case mapped body =>
    rcases dispatchMapped_cases h with h | ⟨param, members, h⟩ | h
    · cases h
    · cases h
    · cases h
      exact interning_intern (fun σ hσ => internSpec_internMapped hσ _) nofun nofun
  case template body =>
    subst h
    exact interning_intern (fun σ hσ => internSpec_internTemplate hσ _) nofun nofun
  case keyof operand =>
    subst h
    exact interning_intern (fun σ hσ => internSpec_internKeyof hσ _) nofun nofun
  case deferredIndexedAccess body =>
    subst h
    exact interning_intern (fun σ hσ => internSpec_internDeferredIndexedAccess hσ _ _) nofun nofun
  case declared body =>
    obtain ⟨recipe, _, h⟩ := bind_eq_some_iff.mp h
    cases h
    exact interning_internDeclared _ _

theorem interning_finish : Interning structuralHash regular (arm.finish ty new) := by
  unfold Arm.finish
  split
  · exact interning_rebuild h new
  · exact interning_pure ty

end Rewrites

theorem interning_defer (ty : TypeId) (args : List (TypeParamId × TypeId)) :
    Interning structuralHash regular
      (fun σ => some (σ.internInstantiation structuralHash ty args)) :=
  interning_intern (fun _ hσ => internSpec_internInstantiation hσ _ _) nofun nofun

theorem nakedArgument_extends (hσ : σ.Consed structuralHash regular) (h : Extends σ τ) {ty : TypeId}
    {naked : Option (TypeParamId × TypeId)} (hnaked : nakedArgument map σ ty = some naked) :
    nakedArgument map τ ty = some naked := by
  obtain ⟨tag, htag, hread⟩ := map_eq_some_iff.mp hnaked
  obtain ⟨r, hr, _⟩ := row_of_tag hσ htag
  have htp : τ.store.typeParam ty = σ.store.typeParam ty := h.entry_eq hr .typeParams
  rw [nakedArgument, h.tag hσ htag, htp, ← hread]
  rfl

/-- **What a row asks for does not change in an extension.** -/
theorem dispatch_extends (hσ : σ.Consed structuralHash regular) (h : Extends σ τ) {ty : TypeId}
    {row : Row} {d : Dispatch} (hd : dispatch structuralHash map blocked σ ty row = some d) :
    dispatch structuralHash map blocked τ ty row = some d := by
  cases row <;> try exact hd
  case conditional body =>
    change dispatchConditional structuralHash map σ body = some d at hd
    show dispatchConditional structuralHash map τ body = some d
    unfold dispatchConditional at hd ⊢
    split_ifs at hd ⊢
    · obtain ⟨naked, hnaked, hd⟩ := bind_eq_some_iff.mp hd
      refine bind_eq_some_iff.mpr ⟨naked, nakedArgument_extends hσ h hnaked, ?_⟩
      cases naked with
      | none => exact hd
      | some pair =>
        obtain ⟨distributes, hdist, hd⟩ := bind_eq_some_iff.mp hd
        refine bind_eq_some_iff.mpr ⟨distributes, ?_, hd⟩
        obtain ⟨tag, htag, rfl⟩ := map_eq_some_iff.mp hdist
        rw [distributesOver, h.tag hσ htag, h.wellKnown]
        rfl
    · exact hd
  case mapped body =>
    change dispatchMapped structuralHash map σ body = some d at hd
    show dispatchMapped structuralHash map τ body = some d
    unfold dispatchMapped at hd ⊢
    split_ifs at hd ⊢
    · obtain ⟨naked, hnaked, hd⟩ := bind_eq_some_iff.mp hd
      refine bind_eq_some_iff.mpr ⟨naked, nakedArgument_extends hσ h hnaked, ?_⟩
      cases naked with
      | none => exact hd
      | some pair =>
        dsimp only at hd ⊢
        rw [h.wellKnown]
        split_ifs at hd ⊢
        · exact hd
        · obtain ⟨tag, htag, hd⟩ := bind_eq_some_iff.mp hd
          obtain ⟨r, hr, _⟩ := row_of_tag hσ htag
          have hunion : τ.store.unionMembers pair.2 = σ.store.unionMembers pair.2 :=
            h.entry_eq hr .unions
          refine bind_eq_some_iff.mpr ⟨tag, h.tag hσ htag, ?_⟩
          rw [hunion]
          exact hd
    · exact hd
  case declared body =>
    obtain ⟨recipe, hrecipe, hd⟩ := bind_eq_some_iff.mp hd
    exact bind_eq_some_iff.mpr ⟨recipe, h.recipe hrecipe, hd⟩

end Arms

end Typokat.Types
