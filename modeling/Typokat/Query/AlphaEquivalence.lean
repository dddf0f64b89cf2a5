import Mathlib.Logic.Relation
import Mathlib.Data.List.Zip
import Typokat.Query.AlphaIdentity
import Typokat.Types.Summary

/-!
# Alpha-Equivalence of Types

Two types are alpha-equivalent when they can be unfolded side by side without end: rows of one
kind with the same attributes, leaves that are the same, and type parameters that the same binder
on both sides binds.

The comparison takes a shorter way in two places.  It accepts a type that occurs on both sides
at once without looking inside, and it accepts a parameter on the left that is paired with the
one on the right although another binder hides the pair there.

## Main Results

- `alphaBinderKey_eq_iff` : the key of the binders says what each parameter is paired with
- `sameRow_iff` : what the comparison of two rows tests
- `AlphaEquivalent.symm` : the sides can be exchanged
- `alphaEquivalent_self_iff` : what a type beside itself asks of the binders
- `alphaEquivalent_iff_reached` : equivalence is a property of the pairs that are reached
-/

namespace Typokat.Query

open Types Option List Row

/-! ## §1 Binders -/

namespace AlphaBinders

variable {binders binders' : AlphaBinders}

theorem boundTo_cons (pair : TypeParamId × TypeParamId) (param : TypeParamId) :
    boundTo (pair :: binders) param
      = if pair.1 = param then some pair.2 else boundTo binders param := by
  unfold boundTo
  rw [find?_cons]
  by_cases h : pair.1 = param
  · simp [h]
  · have hne : (pair.1 == param) = false := by simpa using h
    rw [hne, if_neg h]

theorem boundTo_append (inner : AlphaBinders) (param : TypeParamId) :
    boundTo (inner ++ binders) param = (boundTo inner param).or (boundTo binders param) := by
  induction inner with
  | nil => rfl
  | cons pair inner ih =>
    rw [cons_append, boundTo_cons, boundTo_cons, ih]
    split <;> rfl

@[simp] theorem flip_flip (binders : AlphaBinders) : flip (flip binders) = binders := by
  simp [flip]

theorem flip_append (inner : AlphaBinders) : flip (inner ++ binders) = flip inner ++ flip binders :=
  map_append

theorem flip_cons (pair : TypeParamId × TypeParamId) :
    flip (pair :: binders) = pair.swap :: flip binders := rfl

end AlphaBinders

theorem mem_innermostPairs {binders : AlphaBinders} {seen : FxHashSet TypeParamId}
    {param bound : TypeParamId} :
    (param, bound) ∈ innermostPairs binders seen ↔
      param ∉ seen ∧ binders.boundTo param = some bound := by
  induction binders generalizing seen with
  | nil => simp [innermostPairs, AlphaBinders.boundTo]
  | cons pair rest ih =>
    rw [AlphaBinders.boundTo_cons]
    unfold innermostPairs
    by_cases hpair : pair.1 = param
    · rw [if_pos hpair]
      by_cases hseen : pair.1 ∈ seen
      · rw [if_pos hseen, ih, ← hpair]
        simp [hseen]
      · rw [if_neg hseen, Finset.mem_insert, ih, ← hpair]
        simp [hseen, Prod.ext_iff, eq_comm]
    · rw [if_neg hpair]
      by_cases hseen : pair.1 ∈ seen
      · rw [if_pos hseen, ih]
      · rw [if_neg hseen, Finset.mem_insert, ih]
        simp [Prod.ext_iff, Ne.symm hpair]

section Binders

variable {binders binders' : AlphaBinders}

theorem innermostPairs_eq_iff :
    innermostPairs binders ∅ = innermostPairs binders' ∅ ↔
      ∀ param, binders.boundTo param = binders'.boundTo param := by
  constructor
  · intro h param
    apply ext
    intro bound
    have hmem := @mem_innermostPairs binders ∅ param bound
    rw [h, mem_innermostPairs] at hmem
    simpa using hmem.symm
  · intro h
    ext ⟨param, bound⟩
    rw [mem_innermostPairs, mem_innermostPairs, h]

/-- **The key of the binders says what each parameter is paired with on either side.** -/
theorem alphaBinderKey_eq_iff :
    alphaBinderKey binders = alphaBinderKey binders' ↔
      (∀ param, binders.boundTo param = binders'.boundTo param) ∧
        ∀ param, binders.flip.boundTo param = binders'.flip.boundTo param := by
  unfold alphaBinderKey
  rw [AlphaBinderKey.mk.injEq, innermostPairs_eq_iff, innermostPairs_eq_iff]

/-- Binders with one key have one key inside of a signature. -/
theorem alphaBinderKey_append (h : alphaBinderKey binders = alphaBinderKey binders')
    (inner : AlphaBinders) :
    alphaBinderKey (inner ++ binders) = alphaBinderKey (inner ++ binders') := by
  rw [alphaBinderKey_eq_iff] at h ⊢
  constructor
  · intro param
    rw [AlphaBinders.boundTo_append, AlphaBinders.boundTo_append, h.1]
  · intro param
    rw [AlphaBinders.flip_append, AlphaBinders.flip_append, AlphaBinders.boundTo_append,
      AlphaBinders.boundTo_append, h.2]

theorem alphaTypeParamsIdentical_congr (h : alphaBinderKey binders = alphaBinderKey binders')
    (left right : TypeParamId) :
    alphaTypeParamsIdentical left right binders
      = alphaTypeParamsIdentical left right binders' := by
  rw [alphaBinderKey_eq_iff] at h
  unfold alphaTypeParamsIdentical
  rw [h.1, h.2]

end Binders

/-- The occurrences refer to the same binder: the innermost pairs that bind them stand at the
    same place, or both are free and equal. -/
def SameBinder (binders : AlphaBinders) (left right : TypeParamId) : Prop :=
  match (binders.map Prod.fst).idxOf? left, (binders.map Prod.snd).idxOf? right with
  | some i, some j => i = j
  | none, none => left = right
  | _, _ => False

theorem sameBinder_nil (left right : TypeParamId) : SameBinder [] left right ↔ left = right :=
  Iff.rfl

theorem sameBinder_cons (pair : TypeParamId × TypeParamId) (binders : AlphaBinders)
    (left right : TypeParamId) :
    SameBinder (pair :: binders) left right ↔
      (pair.1 = left ∧ pair.2 = right) ∨
        (pair.1 ≠ left ∧ pair.2 ≠ right ∧ SameBinder binders left right) := by
  unfold SameBinder
  rw [map_cons, map_cons, idxOf?_cons, idxOf?_cons]
  by_cases hleft : pair.1 = left <;> by_cases hright : pair.2 = right <;>
    cases (binders.map Prod.fst).idxOf? left <;> cases (binders.map Prod.snd).idxOf? right <;>
    simp [hleft, hright]

theorem SameBinder.flip {binders : AlphaBinders} {left right : TypeParamId}
    (h : SameBinder binders left right) : SameBinder binders.flip right left := by
  induction binders with
  | nil => exact Eq.symm h
  | cons pair binders ih =>
    rw [sameBinder_cons] at h
    rw [AlphaBinders.flip_cons, sameBinder_cons]
    rcases h with ⟨h₁, h₂⟩ | ⟨h₁, h₂, hrest⟩
    · exact .inl ⟨h₂, h₁⟩
    · exact .inr ⟨h₂, h₁, ih hrest⟩

/-- Occurrences of one binder pass the test. -/
theorem SameBinder.identical {binders : AlphaBinders} {left right : TypeParamId}
    (h : SameBinder binders left right) : alphaTypeParamsIdentical left right binders = true := by
  induction binders with
  | nil =>
    rw [sameBinder_nil] at h
    simpa [alphaTypeParamsIdentical, AlphaBinders.boundTo, AlphaBinders.flip] using h
  | cons pair binders ih =>
    rw [sameBinder_cons] at h
    unfold alphaTypeParamsIdentical
    rw [AlphaBinders.flip_cons, AlphaBinders.boundTo_cons, AlphaBinders.boundTo_cons]
    rcases h with ⟨h₁, h₂⟩ | ⟨h₁, h₂, hrest⟩
    · rw [if_pos h₁]
      simpa using h₂
    · have hrest := ih hrest
      unfold alphaTypeParamsIdentical at hrest
      rw [if_neg h₁, if_neg (show ¬ pair.swap.1 = right from h₂)]
      exact hrest

/-! ## §2 Equivalence -/

/-- The rows without components. -/
def leafRow : Row → Bool
  | .intrinsic _ | .literal _ => true
  | _ => false

/-- Two properties with the same attributes and related types. -/
@[mk_iff] structure SameProperty (S : TypeId → TypeId → Prop) (left right : PropertyType) :
    Prop where
  key : left.key = right.key
  optional : left.optional = right.optional
  visibility : left.visibility = right.visibility
  declaringClass : left.visibility = .publicAccess ∨ left.declaringClass = right.declaringClass
  readonly : left.readonly = right.readonly
  isAccessor : left.isAccessor = right.isAccessor
  ty : S left.ty right.ty
  writeTy : Option.Rel S left.writeTy right.writeTy

/-- Names do not matter. -/
@[mk_iff] structure SameParameter (S : TypeId → TypeId → Prop) (left right : ParameterType) :
    Prop where
  optional : left.optional = right.optional
  hasDefault : left.hasDefault = right.hasDefault
  rest : left.rest = right.rest
  ty : S left.ty right.ty

/-- Two rows of one kind with the same attributes, whose types are related place by place. -/
def SameRow (S : TypeId → TypeId → Prop) : Row → Row → Prop
  | .object left, .object right =>
    Forall₂ (SameProperty S) left.properties right.properties ∧
      Forall₂ S left.callSignatures right.callSignatures ∧
      Forall₂ S left.constructSignatures right.constructSignatures ∧
      Option.Rel S left.stringIndex right.stringIndex ∧
      Option.Rel S left.numberIndex right.numberIndex
  | .function left, .function right =>
    Forall₂ (fun p q => Option.Rel S p.constraint q.constraint ∧
        Option.Rel S p.default q.default) left.typeParams right.typeParams ∧
      Option.Rel S left.receiver right.receiver ∧
      Forall₂ (SameParameter S) left.params right.params ∧ S left.ret right.ret
  | .array left, .array right => S left right
  | .tuple left, .tuple right => Forall₂ S left.elements right.elements ∧
      Option.Rel (fun p q => p.position = q.position ∧ S p.ty q.ty) left.rest right.rest
  | .readonly left, .readonly right => S left right
  | _, _ => False

/-- One unfolding of two types whose components are related. -/
inductive AlphaStep (store : Store) (R : TypeId → TypeId → AlphaBinders → Prop) :
    TypeId → TypeId → AlphaBinders → Prop
  /-- occurrences of one binder -/
  | param {left right : TypeId} {binders : AlphaBinders} {p q : TypeParamType} :
      store.row left = some (.typeParam p) → store.row right = some (.typeParam q) →
      SameBinder binders p.id q.id → AlphaStep store R left right binders
  /-- an intrinsic or a literal is only equal to itself -/
  | leaf {ty : TypeId} {binders : AlphaBinders} {row : Row} :
      store.row ty = some row → leafRow row = true → AlphaStep store R ty ty binders
  /-- rows of one kind -/
  | rows {left right : TypeId} {binders : AlphaBinders} {leftRow rightRow : Row} :
      store.row left = some leftRow → store.row right = some rightRow →
      SameRow (fun l r => R l r (rowBinders leftRow rightRow binders)) leftRow rightRow →
      AlphaStep store R left right binders

/-- **Alpha-equivalence** of two types under binders: they are in a relation that every
    unfolding stays in. -/
def AlphaEquivalent (store : Store) (left right : TypeId) (binders : AlphaBinders) : Prop :=
  ∃ R : TypeId → TypeId → AlphaBinders → Prop, R left right binders ∧
    ∀ l r b, R l r b → AlphaStep store R l r b

theorem rel_imp {A : Type} {R S : A → A → Prop} (h : ∀ a b, R a b → S a b) {x y : Option A}
    (hrel : Option.Rel R x y) : Option.Rel S x y := by
  cases hrel with
  | some hab => exact .some (h _ _ hab)
  | none => exact .none

theorem rel_swap {A : Type} {R S : A → A → Prop} (h : ∀ a b, R a b → S b a) {x y : Option A}
    (hrel : Option.Rel R x y) : Option.Rel S y x := by
  cases hrel with
  | some hab => exact .some (h _ _ hab)
  | none => exact .none

/-- The step finds the same attributes and related types. -/
def Comparison.Holds (S : TypeId → TypeId → Prop) (step : Comparison) : Prop :=
  step.same = true ∧ ∀ types ∈ step.types, Option.Rel S types.1 types.2

section SameRow

variable {S : TypeId → TypeId → Prop}

@[simp] theorem holds_both {left right : TypeId} :
    (Comparison.both left right).Holds S ↔ S left right := by
  simp [Comparison.Holds, Comparison.both]

@[simp] theorem holds_optional {left right : Option TypeId} :
    (Comparison.optional left right).Holds S ↔ Option.Rel S left right := by
  simp [Comparison.Holds, Comparison.optional]

@[simp] theorem holds_propertyComparison {left right : PropertyType} :
    (propertyComparison left right).Holds S ↔ SameProperty S left right := by
  simp [Comparison.Holds, propertyComparison, sameProperty_iff, and_assoc]

@[simp] theorem holds_parameterComparison {left right : ParameterType} :
    (parameterComparison left right).Holds S ↔ SameParameter S left right := by
  simp [Comparison.Holds, parameterComparison, sameParameter_iff, and_assoc]

@[simp] theorem holds_tupleComparison {left right : TupleType} :
    (tupleComparison left right).Holds S ↔ SameRow S (.tuple left) (.tuple right) := by
  simp only [Comparison.Holds, tupleComparison, SameRow, forall₂_iff_zip, Bool.and_eq_true,
    beq_iff_eq, forall_mem_append, List.forall_mem_map, forall_mem_singleton, Prod.forall,
    rel_some_some]
  cases left.rest <;> cases right.rest <;> simp [and_assoc, and_left_comm]

theorem forall_mem_zipWith {A B : Type} {f : A → A → B} {P : B → Prop} {xs ys : List A}
    (hlength : xs.length = ys.length) :
    (∀ z ∈ zipWith f xs ys, P z) ↔ Forall₂ (fun x y => P (f x y)) xs ys := by
  rw [forall₂_iff_zip, ← map_uncurry_zip_eq_zipWith, List.forall_mem_map]
  simp [hlength]

/-- **The comparison of two rows** tests that they are the same up to related types. -/
theorem sameRow_iff {left right : Row} : SameRow S left right ↔
    ∃ steps, rowComparisons left right = some steps ∧ ∀ step ∈ steps, step.Holds S := by
  cases left <;> cases right <;> try (simp [SameRow, rowComparisons]; done)
  case object.object left right =>
    simp only [SameRow, rowComparisons, objectComparisons]
    split
    · rename_i hcounts
      simp only [reduceCtorEq, false_and, exists_false, iff_false]
      rintro ⟨hproperties, hcalls, hconstructs, -⟩
      simp [hproperties.length_eq, hcalls.length_eq, hconstructs.length_eq] at hcounts
    · rename_i hcounts
      simp only [Bool.or_eq_true, bne_iff_ne, not_or, not_not] at hcounts
      obtain ⟨⟨hproperties, hcalls⟩, hconstructs⟩ := hcounts
      simp only [some.injEq, exists_eq_left', forall_mem_append, forall_mem_zipWith hproperties,
        forall_mem_zipWith hcalls, forall_mem_zipWith hconstructs, holds_propertyComparison,
        holds_both, forall_mem_cons, holds_optional, and_assoc, not_mem_nil, false_imp_iff,
        implies_true, and_true]
  case function.function left right =>
    simp only [SameRow, rowComparisons, functionComparisons]
    split
    · rename_i hcounts
      simp only [reduceCtorEq, false_and, exists_false, iff_false]
      rintro ⟨hparams, -, hparameters, -⟩
      simp [hparams.length_eq, hparameters.length_eq] at hcounts
    · rename_i hcounts
      simp only [Bool.or_eq_true, bne_iff_ne, not_or, not_not] at hcounts
      simp only [some.injEq, exists_eq_left', forall_mem_append, List.forall_mem_flatMap,
        forall_mem_zipWith hcounts.2, holds_parameterComparison, holds_both, forall_mem_cons,
        holds_optional, and_assoc, Prod.forall, not_mem_nil, false_imp_iff, implies_true, and_true]
      rw [forall₂_iff_zip, and_iff_right hcounts.1]

theorem SameRow.mono {T : TypeId → TypeId → Prop} (h : ∀ a b, S a b → T a b) {left right : Row}
    (hsame : SameRow S left right) : SameRow T left right := by
  obtain ⟨steps, hsteps, hall⟩ := sameRow_iff.mp hsame
  refine sameRow_iff.mpr ⟨steps, hsteps, fun step hstep => ?_⟩
  exact (hall step hstep).imp_right (fun hrel types htypes => rel_imp h (hrel types htypes))

end SameRow

variable {store : Store}

theorem AlphaStep.mono {R S : TypeId → TypeId → AlphaBinders → Prop}
    (hsub : ∀ l r b, R l r b → S l r b) {left right : TypeId} {binders : AlphaBinders}
    (h : AlphaStep store R left right binders) : AlphaStep store S left right binders := by
  cases h with
  | param hleft hright hsame => exact .param hleft hright hsame
  | leaf hrow hleaf => exact .leaf hrow hleaf
  | rows hleft hright hsame => exact .rows hleft hright (hsame.mono (fun l r => hsub l r _))

/-- Equivalence unfolds to equivalence. -/
theorem AlphaEquivalent.step {left right : TypeId} {binders : AlphaBinders}
    (h : AlphaEquivalent store left right binders) :
    AlphaStep store (AlphaEquivalent store) left right binders := by
  obtain ⟨R, hR, hclosed⟩ := h
  exact (hclosed left right binders hR).mono (fun l r b hrel => ⟨R, hrel, hclosed⟩)

/-! ## §3 Exchanging the sides -/

/-- Rows that are the same with their sides exchanged. -/
theorem SameRow.flip {S T : TypeId → TypeId → Prop} (h : ∀ a b, S a b → T b a) {left right : Row}
    (hsame : SameRow S left right) : SameRow T right left := by
  have hall : ∀ {xs ys : List TypeId}, Forall₂ S xs ys → Forall₂ T ys xs :=
    fun hxs => Forall₂.flip (hxs.imp h)
  cases left <;> cases right <;> try exact hsame.elim
  case object.object left right =>
    obtain ⟨hproperties, hcalls, hconstructs, hstring, hnumber⟩ := hsame
    refine ⟨Forall₂.flip (hproperties.imp (fun p q hpq => ?_)), hall hcalls, hall hconstructs,
      rel_swap h hstring, rel_swap h hnumber⟩
    exact ⟨hpq.key.symm, hpq.optional.symm, hpq.visibility.symm,
      hpq.visibility ▸ hpq.declaringClass.imp_right Eq.symm, hpq.readonly.symm,
      hpq.isAccessor.symm, h _ _ hpq.ty, rel_swap h hpq.writeTy⟩
  case function.function left right =>
    obtain ⟨hparams, hreceiver, hparameters, hret⟩ := hsame
    refine ⟨Forall₂.flip (hparams.imp (fun p q hpq => ?_)), rel_swap h hreceiver,
      Forall₂.flip (hparameters.imp (fun p q hpq => ?_)), h _ _ hret⟩
    · exact ⟨rel_swap h hpq.1, rel_swap h hpq.2⟩
    · exact ⟨hpq.optional.symm, hpq.hasDefault.symm, hpq.rest.symm, h _ _ hpq.ty⟩
  case array.array left right => exact h _ _ hsame
  case tuple.tuple left right =>
    exact ⟨hall hsame.1, rel_swap (fun p q hpq => ⟨hpq.1.symm, h _ _ hpq.2⟩) hsame.2⟩
  case readonly.readonly left right => exact h _ _ hsame

theorem rowBinders_flip (left right : Row) (binders : AlphaBinders) :
    rowBinders right left binders.flip = (rowBinders left right binders).flip := by
  cases left <;> cases right <;> try rfl
  case function.function left right =>
    simp only [rowBinders, AlphaBinders.flip_append]
    congr 1
    unfold AlphaBinders.flip
    rw [map_reverse, map_zipWith, zipWith_comm]
    rfl

/-- **The sides can be exchanged.** -/
theorem AlphaEquivalent.symm {left right : TypeId} {binders : AlphaBinders}
    (h : AlphaEquivalent store left right binders) :
    AlphaEquivalent store right left binders.flip := by
  refine ⟨fun l r b => AlphaEquivalent store r l b.flip, ?_, ?_⟩
  · show AlphaEquivalent store left right binders.flip.flip
    rw [AlphaBinders.flip_flip]
    exact h
  · intro l r b hrel
    have hstep := hrel.step
    generalize hb : b.flip = b' at hstep
    have hback : b = b'.flip := by rw [← hb, AlphaBinders.flip_flip]
    cases hstep with
    | param hleft hright hsame =>
      rw [hback]
      exact .param hright hleft hsame.flip
    | leaf hrow hleaf => exact .leaf hrow hleaf
    | rows hleft hright hsame =>
      apply AlphaStep.rows hright hleft
      apply hsame.flip
      intro a b' hab
      rw [← rowBinders_flip, hb]
      exact hab

/-! ## §4 A type beside itself -/

/-- Every type below is of a row that needs no planning. -/
def Unplanned (store : Store) (ty : TypeId) : Prop :=
  ∀ node, store.Reaches ty node → ∃ row, store.row node = some row ∧ unplanned row = true

theorem Unplanned.edge {ty child : TypeId} (h : Unplanned store ty) (hedge : store.Edge ty child) :
    Unplanned store child :=
  fun node hnode => h node (.head hedge hnode)

theorem mem_zipWith {A B C : Type} {f : A → B → C} {xs : List A} {ys : List B} {z : C}
    (h : z ∈ List.zipWith f xs ys) : ∃ x ∈ xs, ∃ y ∈ ys, f x y = z := by
  rw [← List.map_uncurry_zip_eq_zipWith, List.mem_map] at h
  obtain ⟨⟨x, y⟩, hin, hz⟩ := h
  exact ⟨x, (of_mem_zip hin).1, y, (of_mem_zip hin).2, hz⟩

/-- The types that the steps compare are components of the rows. -/
theorem mem_applyChildren_of_types {left right : Row} {steps : List Comparison}
    (h : rowComparisons left right = some steps) {step : Comparison} (hstep : step ∈ steps)
    {l r : TypeId} (htypes : (some l, some r) ∈ step.types) :
    l ∈ left.applyChildren ∧ r ∈ right.applyChildren := by
  cases left <;> cases right <;> simp only [rowComparisons, reduceCtorEq] at h
  case object.object left right =>
    unfold objectComparisons at h
    split at h
    · cases h
    · cases h
      simp only [mem_append] at hstep
      -- a property compares two types, a signature or an index one
      rcases hstep with ((hproperty | hcall) | hconstruct) | hindex
      · obtain ⟨a, ha, b, hb, rfl⟩ := mem_zipWith hproperty
        simp only [propertyComparison, mem_cons, Prod.mk.injEq, some.injEq,
          not_mem_nil, or_false] at htypes
        simp only [applyChildren, mem_append, mem_flatMap, mem_cons, mem_toList]
        rcases htypes with ⟨rfl, rfl⟩ | ⟨hl, hr⟩
        · exact ⟨.inl (.inl (.inl (.inl ⟨a, ha, .inl rfl⟩))),
            .inl (.inl (.inl (.inl ⟨b, hb, .inl rfl⟩)))⟩
        · exact ⟨.inl (.inl (.inl (.inl ⟨a, ha, .inr hl.symm⟩))),
            .inl (.inl (.inl (.inl ⟨b, hb, .inr hr.symm⟩)))⟩
      · obtain ⟨a, ha, b, hb, rfl⟩ := mem_zipWith hcall
        simp only [Comparison.both, mem_singleton, Prod.mk.injEq, some.injEq] at htypes
        simp [applyChildren, htypes, ha, hb]
      · obtain ⟨a, ha, b, hb, rfl⟩ := mem_zipWith hconstruct
        simp only [Comparison.both, mem_singleton, Prod.mk.injEq, some.injEq] at htypes
        simp [applyChildren, htypes, ha, hb]
      · simp only [mem_cons, not_mem_nil, or_false] at hindex
        rcases hindex with rfl | rfl
        all_goals
          simp only [Comparison.optional, mem_singleton, Prod.mk.injEq] at htypes
          simp [applyChildren, ← htypes.1, ← htypes.2]
  case function.function left right =>
    unfold functionComparisons at h
    split at h
    · cases h
    · cases h
      simp only [mem_append, mem_singleton, mem_flatMap] at hstep
      -- type parameters, the receiver, the parameters and the result
      rcases hstep with ((⟨⟨a, b⟩, hin, hparam⟩ | rfl) | hparam) | rfl
      · have ha := (of_mem_zip hin).1
        have hb := (of_mem_zip hin).2
        simp only [mem_cons, not_mem_nil, or_false] at hparam
        simp only [applyChildren, mem_append, mem_flatMap, mem_toList]
        rcases hparam with rfl | rfl
        all_goals simp only [Comparison.optional, mem_singleton, Prod.mk.injEq] at htypes
        · exact ⟨.inl (.inl (.inl ⟨a, ha, .inl htypes.1.symm⟩)),
            .inl (.inl (.inl ⟨b, hb, .inl htypes.2.symm⟩))⟩
        · exact ⟨.inl (.inl (.inl ⟨a, ha, .inr htypes.1.symm⟩)),
            .inl (.inl (.inl ⟨b, hb, .inr htypes.2.symm⟩))⟩
      · simp only [Comparison.optional, mem_singleton, Prod.mk.injEq] at htypes
        simp [applyChildren, ← htypes.1, ← htypes.2]
      · obtain ⟨a, ha, b, hb, rfl⟩ := mem_zipWith hparam
        simp only [parameterComparison, List.mem_singleton, Prod.mk.injEq, some.injEq]
          at htypes
        simp only [applyChildren, List.mem_append, List.mem_map]
        exact ⟨.inl (.inl (.inr ⟨a, ha, htypes.1.symm⟩)), .inl (.inl (.inr ⟨b, hb, htypes.2.symm⟩))⟩
      · simp only [Comparison.both, List.mem_singleton, Prod.mk.injEq, some.injEq] at htypes
        simp [applyChildren, htypes]
  case array.array left right =>
    cases h
    rw [mem_singleton] at hstep
    rw [hstep] at htypes
    simpa [Comparison.both, applyChildren] using htypes
  case tuple.tuple left right =>
    cases h
    rw [List.mem_singleton] at hstep
    rw [hstep] at htypes
    simp only [tupleComparison, List.mem_append, List.mem_map, List.mem_singleton,
      Prod.mk.injEq, some.injEq, Prod.exists] at htypes
    rcases htypes with ⟨a, b, hin, rfl, rfl⟩ | ⟨hl, hr⟩
    · simp [applyChildren, (List.of_mem_zip hin).1, (List.of_mem_zip hin).2]
    · simp only [applyChildren, List.mem_append, List.mem_map, mem_toList]
      obtain ⟨a, ha, hla⟩ := map_eq_some_iff.mp hl.symm
      obtain ⟨b, hb, hrb⟩ := map_eq_some_iff.mp hr.symm
      exact ⟨.inr ⟨a, ha, hla⟩, .inr ⟨b, hb, hrb⟩⟩
  case readonly.readonly left right =>
    cases h
    rw [mem_singleton] at hstep
    rw [hstep] at htypes
    simpa [Comparison.both, applyChildren] using htypes

theorem forall_mem_toList {A : Type} {P : A → Prop} {x : Option A} :
    (∀ a ∈ x.toList, P a) ↔ ∀ a ∈ x, P a := by
  simp

theorem rel_self_iff {A : Type} {R : A → A → Prop} {x : Option A} :
    Option.Rel R x x ↔ ∀ a ∈ x, R a a := by
  cases x <;> simp

/-- A row that needs no planning is a parameter, a leaf, or the same as itself when all of its
    components are related to themselves. -/
theorem sameRow_self {row : Row} (h : unplanned row = true) :
    (∃ p, row = .typeParam p) ∨ leafRow row = true ∨
      ∀ S : TypeId → TypeId → Prop,
        SameRow S row row ↔ ∀ child ∈ row.applyChildren, S child child := by
  cases row <;> try cases h
  case typeParam p => exact .inl ⟨p, rfl⟩
  case intrinsic => exact .inr (.inl rfl)
  case literal => exact .inr (.inl rfl)
  all_goals refine .inr (.inr (fun S => ?_))
  case object body =>
    simp only [SameRow, applyChildren, forall₂_same, sameProperty_iff, rel_self_iff,
      forall_mem_append, List.forall_mem_flatMap, forall_mem_cons, forall_mem_toList]
    grind
  case function body =>
    simp only [SameRow, applyChildren, forall₂_same, sameParameter_iff, rel_self_iff,
      forall_mem_append, List.forall_mem_flatMap, List.forall_mem_map, forall_mem_singleton,
      forall_mem_toList]
    grind
  case array element => simp [SameRow, applyChildren]
  case tuple body =>
    simp [SameRow, applyChildren, forall₂_same, rel_self_iff, or_imp, forall_and]
  case readonly operand => simp [SameRow, applyChildren]

theorem sameBinder_append_self {inner binders : AlphaBinders}
    (hinner : ∀ pair ∈ inner, pair.1 = pair.2) (param : TypeParamId) :
    SameBinder (inner ++ binders) param param ↔
      param ∈ inner.map Prod.fst ∨ SameBinder binders param param := by
  induction inner with
  | nil => simp
  | cons pair inner ih =>
    rw [forall_mem_cons] at hinner
    rw [cons_append, sameBinder_cons, ih hinner.2, ← hinner.1, map_cons, mem_cons]
    by_cases hpair : pair.1 = param
    · simp [hpair]
    · simp [hpair, Ne.symm hpair]

theorem sameBinder_rowBinders_self (row : Row) (binders : AlphaBinders) (param : TypeParamId) :
    SameBinder (rowBinders row row binders) param param ↔
      param ∈ row.binders ∨ SameBinder binders param param := by
  cases row <;> try (simp only [rowBinders, Row.binders, not_mem_nil, false_or]; done)
  case function body =>
    simp only [rowBinders, Row.binders, zipWith_self]
    rw [sameBinder_append_self]
    · simp
    · simp

theorem rowComparisons_typeParam (p : TypeParamType) (row : Row) :
    rowComparisons (.typeParam p) row = none := by
  cases row <;> rfl

theorem applyChildren_of_leafRow {row : Row} (h : leafRow row = true) : row.applyChildren = [] := by
  cases row <;> first | rfl | cases h

theorem mem_ownParameters {row : Row} (h : unplanned row = true) {p : TypeParamId}
    (hp : p ∈ store.ownParameters row) : ∃ q, row = .typeParam q ∧ q.id = p := by
  cases row <;> cases h <;> try cases hp
  case typeParam.refl.head q => exact ⟨q, rfl, rfl⟩
  all_goals contradiction

/-- The unfolding of a type beside itself, by what its row is. -/
theorem AlphaStep.self_cases {R : TypeId → TypeId → AlphaBinders → Prop} {ty : TypeId}
    {binders : AlphaBinders} (h : AlphaStep store R ty ty binders) {row : Row}
    (hrow : store.row ty = some row) (hunplanned : unplanned row = true) :
    (∀ q, row = .typeParam q → SameBinder binders q.id q.id) ∧
      ∀ child ∈ row.applyChildren, R child child (rowBinders row row binders) := by
  cases h with
  | param hleft hright hsame =>
    rw [hrow, some.injEq] at hleft hright
    rw [← typeParam.inj (hleft.symm.trans hright)] at hsame
    rw [hleft]
    refine ⟨?_, by simp [applyChildren]⟩
    intro q hq
    rw [← typeParam.inj hq]
    exact hsame
  | leaf hrow' hleaf =>
    rw [hrow, some.injEq] at hrow'
    rw [← hrow'] at hleaf
    refine ⟨?_, by simp [applyChildren_of_leafRow hleaf]⟩
    intro q hq
    rw [hq] at hleaf
    cases hleaf
  | rows hleft hright hsame =>
    rw [hrow, some.injEq] at hleft hright
    rw [← hleft, ← hright] at hsame
    rcases sameRow_self hunplanned with ⟨q, rfl⟩ | hleaf | hself
    · exact hsame.elim
    · cases row <;> cases hleaf <;> exact hsame.elim
    · refine ⟨?_, (hself _).mp hsame⟩
      rintro q rfl
      exact hsame.elim

/-- **A type is equivalent to itself exactly when each of its free parameters is bound alike on
    both sides.** -/
theorem alphaEquivalent_self_iff {ty : TypeId} (hty : Unplanned store ty) {binders : AlphaBinders} :
    AlphaEquivalent store ty ty binders ↔
      ∀ p, store.FreeIn ty p → SameBinder binders p p := by
  constructor
  · intro h p hfree
    -- follow the path to the occurrence
    induction hfree generalizing binders with
    | own hrow hown =>
      obtain ⟨row, hrow', hunplanned⟩ := hty _ .refl
      rw [hrow, some.injEq] at hrow'
      rw [← hrow'] at hunplanned
      obtain ⟨q, hq, rfl⟩ := mem_ownParameters hunplanned hown
      exact (h.step.self_cases hrow hunplanned).1 q hq
    | child hedge hfree hnot ih =>
      obtain ⟨row, hrow, hchild⟩ := hedge
      obtain ⟨row', hrow', hunplanned⟩ := hty _ .refl
      rw [hrow, some.injEq] at hrow'
      rw [← hrow'] at hunplanned
      have hequiv := (h.step.self_cases hrow hunplanned).2 _ hchild
      have hsame := ih (hty.edge ⟨row, hrow, hchild⟩) hequiv
      rw [sameBinder_rowBinders_self] at hsame
      rw [Store.nodeBinders, hrow] at hnot
      exact hsame.resolve_left hnot
  · intro h
    refine ⟨fun l r b => l = r ∧ Unplanned store l ∧ ∀ p, store.FreeIn l p → SameBinder b p p,
      ⟨rfl, hty, h⟩, ?_⟩
    intro l r b hrel
    obtain ⟨rfl, hl, hfree⟩ := hrel
    obtain ⟨row, hrow, hunplanned⟩ := hl _ .refl
    rcases sameRow_self hunplanned with ⟨q, rfl⟩ | hleaf | hself
    · exact .param hrow hrow (hfree _ (.own hrow mem_cons_self))
    · exact .leaf hrow hleaf
    · apply AlphaStep.rows hrow hrow
      refine (hself _).mpr (fun child hchild => ⟨rfl, hl.edge ⟨row, hrow, hchild⟩, ?_⟩)
      -- a parameter that is free in the component is bound here or free in the type
      intro p hp
      rw [sameBinder_rowBinders_self]
      by_cases hbound : p ∈ row.binders
      · exact .inl hbound
      · refine .inr (hfree p (.child ⟨row, hrow, hchild⟩ hp ?_))
        rw [Store.nodeBinders, hrow]
        exact hbound

/-! ## §5 The pairs that are reached -/

/-- Two types under binders. -/
abbrev AlphaPair := TypeId × TypeId × AlphaBinders

/-- The comparison of a pair goes on to another one. -/
def Descends (store : Store) (n m : AlphaPair) : Prop :=
  ∃ leftRow rightRow steps, store.row n.1 = some leftRow ∧ store.row n.2.1 = some rightRow ∧
    n.1 ≠ n.2.1 ∧ rowComparisons leftRow rightRow = some steps ∧
    (∃ step ∈ steps, (some m.1, some m.2.1) ∈ step.types) ∧
    m.2.2 = rowBinders leftRow rightRow n.2.2

/-- The pairs that the comparison of two types can reach. -/
def Reached (store : Store) : AlphaPair → AlphaPair → Prop :=
  Relation.ReflTransGen (Descends store)

/-- What the comparison tests at one pair. -/
inductive Passes (store : Store) : AlphaPair → Prop
  | param {left right : TypeId} {binders : AlphaBinders} {p q : TypeParamType} :
      store.row left = some (.typeParam p) → store.row right = some (.typeParam q) →
      alphaTypeParamsIdentical p.id q.id binders = true → Passes store (left, right, binders)
  | equal {ty : TypeId} {binders : AlphaBinders} {row : Row} :
      store.row ty = some row → (∀ p, row ≠ .typeParam p) → Passes store (ty, ty, binders)
  | rows {left right : TypeId} {binders : AlphaBinders} {leftRow rightRow : Row}
      {steps : List Comparison} :
      store.row left = some leftRow → store.row right = some rightRow → left ≠ right →
      rowComparisons leftRow rightRow = some steps →
      (∀ step ∈ steps, step.same = true ∧ ∀ types ∈ step.types,
        types.1.isSome = types.2.isSome) → Passes store (left, right, binders)

/-- What the test at one pair leaves open: two parameters refer to one binder, and so does each
    free parameter of a type that occurs on both sides. -/
structure BindsAlike (store : Store) (n : AlphaPair) : Prop where
  param : ∀ p q, store.row n.1 = some (.typeParam p) → store.row n.2.1 = some (.typeParam q) →
    SameBinder n.2.2 p.id q.id
  equal : n.1 = n.2.1 → ∀ p, store.FreeIn n.1 p → SameBinder n.2.2 p p

theorem AlphaEquivalent.descends {n m : AlphaPair} (h : AlphaEquivalent store n.1 n.2.1 n.2.2)
    (hstep : Descends store n m) :
    AlphaEquivalent store m.1 m.2.1 m.2.2 := by
  obtain ⟨leftRow, rightRow, steps, hleft, hright, hne, hsteps, ⟨step, hin, htypes⟩, hbinders⟩ :=
    hstep
  have hunfold := h.step
  generalize hl : n.1 = l at *
  generalize hr : n.2.1 = r at *
  cases hunfold with
  | param hparam =>
    rw [hparam, some.injEq] at hleft
    rw [← hleft, rowComparisons_typeParam] at hsteps
    cases hsteps
  | leaf => exact absurd rfl hne
  | rows hleft' hright' hsame =>
    rw [hleft', some.injEq] at hleft
    rw [hright', some.injEq] at hright
    rw [hleft, hright] at hsame
    obtain ⟨steps', hsteps', hall⟩ := sameRow_iff.mp hsame
    rw [hsteps, some.injEq] at hsteps'
    rw [hbinders]
    have hrel := (hall step (hsteps' ▸ hin)).2 _ htypes
    cases hrel with
    | some hequiv => exact hequiv

/-- Both types of a pair need no planning. -/
def UnplannedPair (store : Store) (n : AlphaPair) : Prop :=
  Unplanned store n.1 ∧ Unplanned store n.2.1

theorem UnplannedPair.reached {n m : AlphaPair} (h : UnplannedPair store n)
    (hreach : Reached store n m) : UnplannedPair store m := by
  induction hreach with
  | refl => exact h
  | tail _ hstep ih =>
    obtain ⟨leftRow, rightRow, steps, hleft, hright, _, hsteps, ⟨step, hin, htypes⟩, _⟩ := hstep
    have hchildren := mem_applyChildren_of_types hsteps hin htypes
    exact ⟨ih.1.edge ⟨leftRow, hleft, hchildren.1⟩, ih.2.edge ⟨rightRow, hright, hchildren.2⟩⟩

theorem AlphaEquivalent.passes {n : AlphaPair} (hn : UnplannedPair store n)
    (h : AlphaEquivalent store n.1 n.2.1 n.2.2) : Passes store n ∧ BindsAlike store n := by
  obtain ⟨left, right, binders⟩ := n
  have hunfold := h.step
  have hequal : left = right → ∀ p, store.FreeIn left p → SameBinder binders p p := by
    intro heq
    have h' := h
    rw [← heq] at h'
    exact (alphaEquivalent_self_iff hn.1).mp h'
  cases hunfold with
  | param hleft hright hsame =>
    refine ⟨.param hleft hright hsame.identical, ?_, hequal⟩
    intro p q hp hq
    rw [hleft, some.injEq, typeParam.injEq] at hp
    rw [hright, some.injEq, typeParam.injEq] at hq
    rw [← hp, ← hq]
    exact hsame
  | leaf hrow hleaf =>
    rename_i row
    have hno : ∀ p, row ≠ .typeParam p := by
      intro p hp
      rw [hp] at hleaf
      cases hleaf
    refine ⟨.equal hrow hno, ?_, hequal⟩
    intro p _ hp
    rw [hrow, some.injEq] at hp
    exact absurd hp (hno p)
  | rows hleft hright hsame =>
    rename_i leftRow rightRow
    have hno : ∀ p, leftRow ≠ .typeParam p := by
      rintro p rfl
      exact hsame.elim
    obtain ⟨steps, hsteps, hall⟩ := sameRow_iff.mp hsame
    refine ⟨?_, ?_, hequal⟩
    · by_cases heq : left = right
      · rw [← heq]
        exact .equal hleft hno
      · apply Passes.rows hleft hright heq hsteps
        intro step hstep
        refine ⟨(hall step hstep).1, ?_⟩
        intro types htypes
        cases types with
        | mk l r =>
          have hrel := (hall step hstep).2 _ htypes
          dsimp only at hrel ⊢
          cases hrel <;> rfl
    · intro p _ hp
      rw [hleft, some.injEq] at hp
      exact absurd hp (hno p)

/-- **Two types are equivalent exactly when every pair that the comparison reaches passes its
    test, and the binders are alike where the test does not look.** -/
theorem alphaEquivalent_iff_reached {left right : TypeId} {binders : AlphaBinders}
    (hplain : UnplannedPair store (left, right, binders)) :
    AlphaEquivalent store left right binders ↔
      ∀ m, Reached store (left, right, binders) m → Passes store m ∧ BindsAlike store m := by
  constructor
  · intro h m hreach
    apply AlphaEquivalent.passes (hplain.reached hreach)
    induction hreach with
    | refl => exact h
    | tail _ hstep ih => exact ih.descends hstep
  · intro h
    -- the pairs that are reached bear each other out, up to the types beside themselves
    refine ⟨fun l r b => Reached store (left, right, binders) (l, r, b) ∨
      AlphaEquivalent store l r b, .inl .refl, ?_⟩
    intro l r b hrel
    rcases hrel with hreach | hequiv
    · obtain ⟨hpasses, halike⟩ := h _ hreach
      cases hpasses with
      | param hleft hright _ => exact .param hleft hright (halike.param _ _ hleft hright)
      | equal hrow hno =>
        have hequiv := (alphaEquivalent_self_iff (hplain.reached hreach).1).mpr (halike.equal rfl)
        exact hequiv.step.mono (fun _ _ _ => .inr)
      | rows hleft hright hne hsteps hall =>
        refine .rows hleft hright (sameRow_iff.mpr ⟨_, hsteps, fun step hstep => ?_⟩)
        refine ⟨(hall step hstep).1, ?_⟩
        intro types htypes
        have hsome := (hall step hstep).2 types htypes
        obtain ⟨_ | a, _ | b'⟩ := types
        · exact .none
        · cases hsome
        · cases hsome
        · exact .some (.inl (hreach.tail
            ⟨_, _, _, hleft, hright, hne, hsteps, ⟨step, hstep, htypes⟩, rfl⟩))
    · exact hequiv.step.mono (fun _ _ _ => .inr)

end Typokat.Query
