import Typokat.Lib.DepthFirst
import Typokat.Relate.Templates
import Typokat.Relate.TupleShape
import Typokat.Types.SetLaws

/-!
# Indexed Access (`checker/indexed_access.rs`, `checker/eval/demand.rs`)

One lookup of a type under an index.  A union of indexes is looked up member by member, and
a type parameter by its constraint.

A number looks up the fixed elements of a tuple by the position that its decimal text names,
wherever the rest stands.  That is the element of every tuple of the type only in front of the
rest, and the text of a large number names another position than the number is.

The two functions that follow constraints stop at a parameter that is its own constraint and
nowhere else, so a longer cycle of constraints is followed forever.

## Main Results

- `tuple_index_iff` : when a fixed element covers all elements at its position
- `indexing_finishes_iff` : the indexes for which the two functions return
-/

namespace Typokat.Check

open Types Relate Interner Option List Store

/-! ## §1 Positions -/

/-- The value of a double that is a non-negative whole number. -/
def wholeValue (x : F64) : Option Nat :=
  let exponent := (x.bits.extractLsb' 52 11).toNat
  let fraction := (x.bits.extractLsb' 0 52).toNat
  let mantissa := if exponent = 0 then fraction else 2 ^ 52 + fraction
  let scale := max exponent 1
  if exponent = 0x7FF then none
  else if x.bits.msb && !x.isZero then none
  else if 1075 ≤ scale then some (mantissa * 2 ^ (scale - 1075))
  else if mantissa % 2 ^ (1075 - scale) = 0 then some (mantissa / 2 ^ (1075 - scale))
  else none

/-- `str::parse::<usize>`. -/
def parseUsize (s : String) : Option Nat :=
  let digits := if s.toList.head? = some '+' then s.toList.tail else s.toList
  if digits.isEmpty || !digits.all Char.isDigit then none
  else (some (Nat.ofDigitChars 10 digits 0)).filter (fun position => position < 2 ^ 64)

/-- The position that the text of a whole number names.  The text is the shortest one that is
    read back as the number, so from 2 ^ 53 on it may name another number. -/
def textPosition (text : NumberText) (value : F64) : Option Nat :=
  if value.isZero then some 0 else parseUsize (text.decimalNumberToString value)

/-- `whole_index`. -/
def wholeIndex (text : NumberText) (value : F64) : Option Nat :=
  if (wholeValue value).isNone then none else textPosition text value

/-! ## §2 The lookup -/

section Lookup

variable (structuralHash : StructuralKey → Nat) (text : NumberText)

/-- Look up the members of a union one after the other. -/
def resolveEach (resolve : Interner → TypeId → Option (Option (TypeId × Interner))) :
    Interner → List TypeId → Option (Option (List TypeId × Interner))
  | σ, [] => some (some ([], σ))
  | σ, member :: rest =>
    match resolve σ member with
    | none => none
    | some none => some none
    | some (some (ty, σ)) =>
      (resolveEach resolve σ rest).map (fun outcome =>
        outcome.map (fun (tys, σ) => (ty :: tys, σ)))

/-- `resolve_single`. -/
def resolveSingle (resolve : Interner → TypeId → TypeId → Option (Option (TypeId × Interner)))
    (σ : Interner) (object index : TypeId) : Option (Option (TypeId × Interner)) :=
  let wk := σ.wellKnown
  let store := σ.store
  match store.literalValue index with
  | some (.string name) =>
    some (some (((store.objectType object).bind (fun object =>
      ((object.property name).map (fun property => property.ty)).or object.stringIndex)).getD
        wk.error, σ))
  | some (.wellKnownSymbol symbol) =>
    some (some (((store.objectType object).bind (fun object =>
      (object.propertyByKey (.wellKnownSymbol symbol)).map (fun property => property.ty))).getD
        wk.error, σ))
  | some (.number number) =>
    if store.tag object = some .tuple then
      some (some (((wholeIndex text number).bind (fun position =>
        (store.tupleType object).bind (fun tuple => tuple.elements[position]?))).getD wk.error, σ))
    else
      match store.arrayType object with
      | some element => some (some (element, σ))
      | none =>
        some (some (((store.objectType object).bind (fun object => object.numberIndex)).getD
          wk.error, σ))
  | _ =>
    if index == wk.number then
      match store.arrayType object with
      | some element => some (some (element, σ))
      | none =>
        some (some (((store.objectType object).bind (fun object => object.numberIndex)).getD
          wk.error, σ))
    else
      match (store.typeParam index).bind (fun parameter =>
        store.typeParamConstraint parameter.id) with
      | some constraint =>
        if constraint ≠ index then resolve σ object constraint else some (some (wk.error, σ))
      | none => some (some (wk.error, σ))

/-- `resolve_indexed_access`: `none` while the call has not returned after `fuel` nested
    calls, and `some none` for the panic of an id that is out of range. -/
def resolveIndexedAccess : Nat → Interner → TypeId → TypeId → Option (Option (TypeId × Interner))
  | 0, _, _, _ => none
  | fuel + 1, σ, object, index =>
    let wk := σ.wellKnown
    if object == wk.error || object == wk.any || index == wk.error || index == wk.any then
      some (some (wk.error, σ))
    else
      let object := (σ.store.readonlyOperand object).getD object
      match σ.store.unionMembers index with
      | some members =>
        (resolveEach (fun σ member => resolveIndexedAccess fuel σ object member) σ members).map
          (fun outcome => outcome.bind (fun (resolved, σ) => σ.union structuralHash resolved))
      | none => resolveSingle text (resolveIndexedAccess fuel) σ object index

/-- `index_requires_demand`: `none` while the call has not returned after `fuel` nested
    calls, and for the panic of an id that is out of range. -/
def indexRequiresDemand (store : Store) : Nat → TypeId → Option Bool
  | 0, _ => none
  | fuel + 1, index =>
    (store.tag index).bind (fun tag =>
      match tag with
      | .union =>
        match store.unionMembers index with
        | some members => members.anyM (indexRequiresDemand store fuel)
        | none => some false
      | .typeParam =>
        match (store.typeParam index).bind (fun parameter =>
          store.typeParamConstraint parameter.id) with
        | some constraint =>
          if constraint == index then some true else indexRequiresDemand store fuel constraint
        | none => some true
      | .conditional | .instantiation | .classInstance | .mapped | .template | .keyof
      | .deferredIndexedAccess | .infer | .mappedValue | .declared => some true
      | _ => some false)

end Lookup

/-! ## §3 Numbers under tuples -/

section Tuples

variable {structuralHash : StructuralKey → Nat} {text : NumberText} {σ : Interner}

/-- A type covers another when it is that type or a union with it as a member. -/
def Covers (store : Store) (cover ty : TypeId) : Prop :=
  ty = cover ∨ ∃ members, store.unionMembers cover = some members ∧ ty ∈ members

theorem ne_wellKnown_of_row (hknown : σ.KnowsIntrinsics) {id : TypeId} {r : Row}
    (hr : σ.store.row id = some r) (hne : r.tag ≠ .intrinsic) (kind : IntrinsicKind) :
    id ≠ σ.wellKnown.id kind := by
  intro heq
  rw [heq, hknown.row kind] at hr
  cases hr
  exact hne rfl

/-- What a number finds in a tuple. -/
theorem resolve_tuple_index (structuralHash : StructuralKey → Nat) (text : NumberText)
    (hknown : σ.KnowsIntrinsics)
    {object index : TypeId} {tuple : TupleType} {x : F64}
    (hobject : σ.store.row object = some (.tuple tuple))
    (hindex : σ.store.row index = some (.literal (.number x))) (fuel : Nat) :
    resolveIndexedAccess structuralHash text (fuel + 1) σ object index =
      some (some (((wholeIndex text x).bind (fun position => tuple.elements[position]?)).getD
        σ.wellKnown.error, σ)) := by
  have hobjectNe := ne_wellKnown_of_row hknown hobject (by simp [Row.tag])
  have hindexNe := ne_wellKnown_of_row hknown hindex (by simp [Row.tag])
  have h₁ := hobjectNe .error
  have h₂ := hobjectNe .any
  have h₃ := hindexNe .error
  have h₄ := hindexNe .any
  simp only [WellKnown.id] at h₁ h₂ h₃ h₄
  have hreadonly : σ.store.readonlyOperand object = none := by
    apply if_neg
    simp [tag_of_row hobject, Row.tag]
  have hunion : σ.store.unionMembers index = none := by
    apply unionMembers_of_tag_ne
    simp [tag_of_row hindex, Row.tag]
  have hliteral : σ.store.literalValue index = some (.number x) :=
    (σ.store.entry_eq_some_iff .literals index _).mpr hindex
  have htuple : σ.store.tupleType object = some tuple :=
    (σ.store.entry_eq_some_iff .tuples object tuple).mpr hobject
  have htag : σ.store.tag object = some .tuple := tag_of_row hobject
  unfold resolveIndexedAccess
  simp [h₁, h₂, h₃, h₄, hreadonly, hunion, resolveSingle, hliteral, htag, htuple]

/-- **A number under a tuple finds what the tuples of the type have there exactly when the
    element in the list covers it**: always if the text of the number names it and the rest is
    behind it, and otherwise only for elements that cover whatever can stand there. -/
theorem tuple_index_iff (text : NumberText) (hσ : σ.Reachable structuralHash)
    {object index : TypeId} {tuple : TupleType} {x : F64} {k : Nat} {shape : TupleShape}
    {depth : Nat} (hobject : σ.store.row object = some (.tuple tuple))
    (hindex : σ.store.row index = some (.literal (.number x))) (hk : wholeValue x = some k)
    (hshape : tupleShape σ.store depth tuple = some shape) :
    (∀ fuel result τ, resolveIndexedAccess structuralHash text fuel σ object index
        = some (some (result, τ)) → result ≠ σ.wellKnown.error →
      ∀ n, k < n → shape.acceptsLen n = true →
        ∃ ty, shape.elementAt k n = some ty ∧ Covers τ.store result ty) ↔
    ∀ position element, textPosition text x = some position →
      tuple.elements[position]? = some element → element ≠ σ.wellKnown.error →
        (position = k ∧ ∀ rest, tuple.rest = some rest → k < rest.position) ∨
          ∀ ty ∈ shape.typesAt k, Covers σ.store element ty := by
  have hresolve := fun fuel => resolve_tuple_index structuralHash text
    hσ.knowsIntrinsics hobject hindex fuel
  have hwhole : wholeIndex text x = textPosition text x := by
    unfold wholeIndex
    rw [hk]
    rfl
  rw [hwhole] at hresolve
  constructor
  · intro h position element hposition helement hne
    right
    intro ty hty
    obtain ⟨n, hn, haccepts, hat⟩ := TupleShape.mem_typesAt.mp hty
    have hfound := hresolve 0
    rw [hposition, bind_some, helement, getD_some] at hfound
    obtain ⟨ty', hat', hcovers⟩ := h 1 element σ hfound hne n hn haccepts
    rw [hat, some.injEq] at hat'
    rw [hat']
    exact hcovers
  · intro h fuel result τ hfound hne n hn haccepts
    obtain ⟨ty, hty⟩ := TupleShape.exists_elementAt haccepts hn
    refine ⟨ty, hty, ?_⟩
    cases fuel with
    | zero => cases hfound
    | succ fuel =>
      rw [hresolve fuel, some.injEq, some.injEq, Prod.mk.injEq] at hfound
      obtain ⟨hresult, rfl⟩ := hfound
      -- a result that is not the error type is an element of the list
      obtain ⟨position, hposition, helement⟩ : ∃ position, textPosition text x = some position ∧
          tuple.elements[position]? = some result := by
        cases hposition : textPosition text x with
        | none =>
          rw [hposition, bind_none, getD_none] at hresult
          exact absurd hresult.symm hne
        | some position =>
          rw [hposition, bind_some] at hresult
          cases helement : tuple.elements[position]? with
          | none =>
            rw [helement, getD_none] at hresult
            exact absurd hresult.symm hne
          | some element =>
            rw [helement, getD_some] at hresult
            exact ⟨position, rfl, hresult ▸ helement⟩
      rcases h position result hposition helement hne with ⟨rfl, hbefore⟩ | hcovers
      · -- in front of the rest the element has one position
        left
        have hbound := (List.getElem?_eq_some_iff.mp helement).1
        obtain ⟨hlen, hprefix⟩ := tupleShape_prefix hshape hbound hbefore
        rw [TupleShape.elementAt_of_lt haccepts hn hlen, hprefix, helement, some.injEq] at hty
        exact hty.symm
      · exact hcovers ty (TupleShape.mem_typesAt.mpr ⟨n, hn, haccepts, hty⟩)

/-- The interner after making `[string, ...number[], boolean]` and the index `1`. -/
theorem tuple_with_rest_made : ∃ reached,
    runHistory (fun _ => 0) 0 [.internArray 8, .internTupleType ⟨[9, 7], some ⟨1, 19⟩⟩,
      .internLiteral (.number ⟨0x3FF0000000000000#64⟩)] (withIntrinsics (fun _ => 0))
        = some reached ∧
    reached.2.store.row 20 = some (.tuple ⟨[9, 7], some ⟨1, 19⟩⟩) ∧
    reached.2.store.row 21 = some (.literal (.number ⟨0x3FF0000000000000#64⟩)) ∧
    tupleShape reached.2.store 1 ⟨[9, 7], some ⟨1, 19⟩⟩ = some ⟨[9], some 8, [7]⟩ ∧
    reached.2.store.unionMembers 7 = none ∧ reached.2.wellKnown.error = 0 := by
  apply exists_of_run
  decide +kernel

/-- The texts of the whole numbers below 2 ^ 53. -/
def wholeTexts : NumberText :=
  ⟨fun x => ((wholeValue x).map Nat.repr).getD "", fun x => ((wholeValue x).map Nat.repr).getD "",
    fun _ => none⟩

/-- `[string, ...number[], boolean][1]` is `boolean`, and the second of three elements is a
    number. -/
theorem tuple_index_after_rest :
    ∃ σ : Interner, ∃ object index tuple shape, σ.Reachable (fun _ => 0) ∧
      σ.store.row object = some (.tuple tuple) ∧
      σ.store.row index = some (.literal (.number ⟨0x3FF0000000000000#64⟩)) ∧
      wholeValue ⟨0x3FF0000000000000#64⟩ = some 1 ∧
      tupleShape σ.store 1 tuple = some shape ∧
      ¬ ∀ fuel result τ, resolveIndexedAccess (fun _ => 0) wholeTexts fuel σ object index
          = some (some (result, τ)) → result ≠ σ.wellKnown.error →
        ∀ n, 1 < n → shape.acceptsLen n = true →
          ∃ ty, shape.elementAt 1 n = some ty ∧ Covers τ.store result ty := by
  obtain ⟨reached, hrun, htuple, hindex, hshape, hunion, herror⟩ := tuple_with_rest_made
  have hreach : reached.2.Reachable (fun _ => 0) := ⟨0, _, reached.1, hrun⟩
  have hone : wholeValue ⟨0x3FF0000000000000#64⟩ = some 1 := by decide +kernel
  refine ⟨reached.2, 20, 21, _, _, hreach, htuple, hindex, hone, hshape, ?_⟩
  intro hall
  have hfound := resolve_tuple_index (fun _ => 0) wholeTexts hreach.knowsIntrinsics htuple
    hindex 0
  have hposition : wholeIndex wholeTexts ⟨0x3FF0000000000000#64⟩ = some 1 := by decide +kernel
  rw [hposition] at hfound
  obtain ⟨ty, hty, hcovers⟩ := hall 1 7 reached.2 hfound (by simp [herror]) 3 (by simp) (by decide)
  have hnumber : ty = 8 := by
    have hat : TupleShape.elementAt ⟨[9], some 8, [7]⟩ 1 3 = some 8 := by decide
    rw [hat, some.injEq] at hty
    exact hty.symm
  rcases hcovers with heq | ⟨members, hmembers, _⟩
  · rw [hnumber] at heq
    cases heq
  · rw [hunion] at hmembers
    cases hmembers

/-- The two sides for the same tuple and index. -/
theorem tuple_index_iff_rest :
    ∃ σ : Interner, ∃ tuple : TupleType, ∃ shape : TupleShape,
      (∀ fuel result τ, resolveIndexedAccess (fun _ => 0) wholeTexts fuel σ 20 21
          = some (some (result, τ)) → result ≠ σ.wellKnown.error →
        ∀ n, 1 < n → shape.acceptsLen n = true →
          ∃ ty, shape.elementAt 1 n = some ty ∧ Covers τ.store result ty) ↔
      ∀ position element, textPosition wholeTexts ⟨0x3FF0000000000000#64⟩ = some position →
        tuple.elements[position]? = some element → element ≠ σ.wellKnown.error →
          (position = 1 ∧ ∀ rest, tuple.rest = some rest → 1 < rest.position) ∨
            ∀ ty ∈ shape.typesAt 1, Covers σ.store element ty := by
  obtain ⟨reached, hrun, htuple, hindex, hshape, _⟩ := tuple_with_rest_made
  have hreach : reached.2.Reachable (fun _ => 0) := ⟨0, _, reached.1, hrun⟩
  have hone : wholeValue ⟨0x3FF0000000000000#64⟩ = some 1 := by decide +kernel
  exact ⟨reached.2, _, _, tuple_index_iff wholeTexts hreach htuple hindex hone hshape⟩

end Tuples

/-! ## §4 Following an index -/

section Termination

variable {structuralHash : StructuralKey → Nat} {text : NumberText} {regular : Prop}
  {σ τ : Interner}

/-- One step along an index: to a member of a union, or to the constraint of a parameter that
    is not its own constraint. -/
inductive Chases (store : Store) : TypeId → TypeId → Prop
  | member {index next : TypeId} {members : List TypeId} :
      store.unionMembers index = some members → next ∈ members → Chases store index next
  | constraint {index constraint : TypeId} {parameter : TypeParamType} :
      store.typeParam index = some parameter →
      store.typeParamConstraint parameter.id = some constraint → constraint ≠ index →
      Chases store index constraint

variable {members : List TypeId}

/-- An id of one side table is in no other. -/
theorem Store.typeParam_of_union {s : Store} {id : TypeId} (h : s.unionMembers id = some members) :
    s.typeParam id = none := by
  have hrow : s.row id = some (.union members) := (s.entry_eq_some_iff .unions id members).mp h
  apply if_neg
  simp [tag_of_row hrow, Row.tag, SideTable.tag]

theorem Chases.of_union {store : Store} {index next : TypeId}
    (hunion : store.unionMembers index = some members) (h : Chases store index next) :
    next ∈ members := by
  cases h with
  | member hmembers hnext =>
    rw [hunion, some.injEq] at hmembers
    rw [hmembers]
    exact hnext
  | constraint hparameter =>
    rw [Store.typeParam_of_union hunion] at hparameter
    cases hparameter

/-- The interner later: it shows the same rows and the same constraints. -/
structure Later (structuralHash : StructuralKey → Nat) (σ τ : Interner) : Prop where
  grown : Interner.Extends σ τ
  consed : τ.Consed structuralHash False
  constraints : τ.store.typeParamConstraints = σ.store.typeParamConstraints

theorem Later.trans {υ : Interner} (h : Later structuralHash σ τ) (h' : Later structuralHash τ υ) :
    Later structuralHash σ υ :=
  ⟨h.grown.trans h'.grown, h'.consed, h'.constraints.trans h.constraints⟩

/-- A union leaves the constraints alone. -/
theorem constraints_union (hσ : σ.Consed structuralHash regular) {result : TypeId × Interner}
    (h : σ.union structuralHash members = some result) :
    result.2.store.typeParamConstraints = σ.store.typeParamConstraints := by
  obtain ⟨flat, hflatten, rfl⟩ := map_eq_some_iff.mp h
  have hflat := flatMember_of_flattenMembers hσ.wellFormed .unions
    (fun _ hnone => hnone) hflatten
  rcases @unionOfFlat_cases structuralHash σ flat hflat with
    heq | ⟨canonical, hcanonical, heq⟩
  · rw [heq]
  · rw [heq]
    rcases internSpec_internUnion hσ hcanonical with
      ⟨hsame, _⟩ | ⟨r, _, _, hinterned⟩
    · rw [hsame]
    · exact hinterned.appended.constraints_eq

theorem later_union (hσ : σ.Consed structuralHash False) {result : TypeId × Interner}
    (h : σ.union structuralHash members = some result) :
    Later structuralHash σ result.2 := by
  obtain ⟨hext, hconsed⟩ := extends_union hσ h
  exact ⟨hext, hconsed, constraints_union hσ h⟩

theorem eventually_forall_mem {A : Type} {P : A → Nat → Prop} {xs : List A}
    (h : ∀ x ∈ xs, ∃ bound, ∀ fuel ≥ bound, P x fuel) :
    ∃ bound, ∀ fuel ≥ bound, ∀ x ∈ xs, P x fuel := by
  induction xs with
  | nil => exact ⟨0, by simp⟩
  | cons x rest ih =>
    obtain ⟨bound, hbound⟩ := h x mem_cons_self
    obtain ⟨bound', hbound'⟩ := ih (fun y hy => h y (mem_cons_of_mem _ hy))
    refine ⟨max bound bound', ?_⟩
    intro fuel hfuel y hy
    rcases mem_cons.mp hy with rfl | hy
    · exact hbound fuel (le_trans (le_max_left _ _) hfuel)
    · exact hbound' fuel (le_trans (le_max_right _ _) hfuel) y hy

/-! ### Chains that end -/

/-- The call returns, with an interner that only grew. -/
def Returns (structuralHash : StructuralKey → Nat) (σ : Interner)
    (call : Option (Option (TypeId × Interner))) : Prop :=
  ∃ outcome, call = some outcome ∧
    ∀ result τ, outcome = some (result, τ) → Later structuralHash σ τ

variable {s : Interner}

theorem returns_resolveEach (hs : Later structuralHash s σ)
    {resolve : Interner → TypeId → Option (Option (TypeId × Interner))}
    (h : ∀ member ∈ members, ∀ τ, Later structuralHash s τ →
      Returns structuralHash τ (resolve τ member)) :
    ∃ outcome, resolveEach resolve σ members = some outcome ∧
      ∀ results τ, outcome = some (results, τ) → Later structuralHash s τ := by
  induction members generalizing σ with
  | nil =>
    refine ⟨_, rfl, ?_⟩
    intro results τ heq
    cases heq
    exact hs
  | cons member rest ih =>
    obtain ⟨outcome, hcall, hlater⟩ := h member mem_cons_self σ hs
    unfold resolveEach
    rw [hcall]
    cases outcome with
    | none =>
      refine ⟨none, rfl, ?_⟩
      intro results τ heq
      cases heq
    | some made =>
      obtain ⟨result, τ⟩ := made
      dsimp only
      obtain ⟨outcome, hrest, hlater'⟩ := ih (hs.trans (hlater result τ rfl))
        (fun other hother => h other (mem_cons_of_mem _ hother))
      rw [hrest]
      refine ⟨_, rfl, ?_⟩
      intro results last heq
      obtain ⟨⟨tys, last⟩, houtcome, heq⟩ := map_eq_some_iff.mp heq
      cases heq
      exact hlater' tys last houtcome

theorem returns_done {result : TypeId} (hσ : σ.Consed structuralHash False) :
    Returns structuralHash σ (some (some (result, σ))) := by
  refine ⟨_, rfl, ?_⟩
  intro ty τ heq
  cases heq
  exact ⟨.refl σ, hσ, rfl⟩

variable {resolve : Interner → TypeId → TypeId → Option (Option (TypeId × Interner))}

/-- One lookup returns when the lookup of the constraint does. -/
theorem returns_resolveSingle (hσ : σ.Consed structuralHash False)
    {object index : TypeId}
    (h : ∀ constraint, Chases σ.store index constraint →
      Returns structuralHash σ (resolve σ object constraint)) :
    Returns structuralHash σ (resolveSingle text resolve σ object index) := by
  have harray : Returns structuralHash σ (match σ.store.arrayType object with
      | some element => some (some (element, σ))
      | none =>
        some (some (((σ.store.objectType object).bind (fun object => object.numberIndex)).getD
          σ.wellKnown.error, σ))) := by
    cases σ.store.arrayType object with
    | some element => exact returns_done hσ
    | none => exact returns_done hσ
  unfold resolveSingle
  dsimp only
  split
  · exact returns_done hσ
  · exact returns_done hσ
  · split
    · exact returns_done hσ
    · exact harray
  · split
    · exact harray
    · split
      · rename_i constraint hconstraint
        obtain ⟨parameter, hparameter, hconstraint⟩ := bind_eq_some_iff.mp hconstraint
        split
        · rename_i hne
          exact h constraint (.constraint hparameter hconstraint hne)
        · exact returns_done hσ
      · exact returns_done hσ

theorem Chases.of_later (hlater : Later structuralHash s σ) {index next : TypeId} {r : Row}
    (hr : s.store.row index = some r) (h : Chases σ.store index next) :
    Chases s.store index next := by
  cases h with
  | member hmembers hnext =>
    refine .member ?_ hnext
    rw [← hmembers]
    exact (hlater.grown.entry_eq hr .unions).symm
  | constraint hparameter hconstraint hne =>
    rename_i parameter
    refine @Chases.constraint _ _ _ parameter ?_ ?_ hne
    · rw [← hparameter]
      exact (hlater.grown.entry_eq hr .typeParams).symm
    · rw [← hconstraint]
      unfold typeParamConstraint
      rw [hlater.constraints]

/-- A parameter has one constraint. -/
theorem Chases.unique {store : Store} {index next other : TypeId}
    (hunion : store.unionMembers index = none) (h : Chases store index next)
    (h' : Chases store index other) : other = next := by
  cases h with
  | member hmembers =>
    rw [hunion] at hmembers
    cases hmembers
  | constraint hparameter hconstraint _ =>
    cases h' with
    | member hmembers =>
      rw [hunion] at hmembers
      cases hmembers
    | constraint hparameter' hconstraint' _ =>
      rw [hparameter, some.injEq] at hparameter'
      rw [hparameter', hconstraint', some.injEq] at hconstraint
      exact hconstraint

/-- One bound for all targets. -/
theorem Chases.bound {store : Store} {index : TypeId} {P : TypeId → Nat → Prop}
    (h : ∀ next, Chases store index next → ∃ bound, ∀ fuel ≥ bound, P next fuel) :
    ∃ bound, ∀ fuel ≥ bound, ∀ next, Chases store index next → P next fuel := by
  cases hunion : store.unionMembers index with
  | some members =>
    obtain ⟨bound, hbound⟩ := eventually_forall_mem
      (fun next hmem => h next (.member hunion hmem))
    exact ⟨bound, fun fuel hfuel next hchases => hbound fuel hfuel next
      (hchases.of_union hunion)⟩
  | none =>
    by_cases hsome : ∃ next, Chases store index next
    · obtain ⟨next, hchases⟩ := hsome
      obtain ⟨bound, hbound⟩ := h next hchases
      refine ⟨bound, ?_⟩
      intro fuel hfuel other hother
      rw [hchases.unique hunion hother]
      exact hbound fuel hfuel
    · exact ⟨0, fun _ _ next hchases => absurd ⟨next, hchases⟩ hsome⟩

/-- The constraints of the parameters denote rows. -/
def ConstraintsDenote (store : Store) : Prop :=
  ∀ parameter constraint, store.typeParamConstraint parameter = some constraint →
    ∃ r, store.row constraint = some r

section Constrained

variable {s : Interner} (hs : s.Consed structuralHash regular)
  (hconstraints : ConstraintsDenote s.store)
include hs hconstraints

/-- The targets of a chain denote rows. -/
theorem Chases.row {index next : TypeId} (h : Chases s.store index next) :
    ∃ r, s.store.row next = some r := by
  cases h with
  | member hmembers hnext => exact row_of_unionMembers hs hmembers next hnext
  | constraint _ hconstraint _ => exact hconstraints _ _ hconstraint

/-- A walk that needs one unit of fuel for each link of a chain gets enough when chains end. -/
theorem exists_fuel_of_acc {P : TypeId → Nat → Prop}
    (hstep : ∀ fuel index r, s.store.row index = some r →
      (∀ next, Chases s.store index next → P next fuel) → P index (fuel + 1)) {index : TypeId}
    (hacc : Acc (fun next index => Chases s.store index next) index)
    (hrow : ∃ r, s.store.row index = some r) : ∃ bound, ∀ fuel ≥ bound, P index fuel := by
  induction hacc with
  | intro index _ ih =>
    obtain ⟨r, hr⟩ := hrow
    obtain ⟨bound, hbound⟩ := Chases.bound
      (fun next hchases => ih next hchases (hchases.row hs hconstraints))
    refine ⟨bound + 1, ?_⟩
    intro fuel hfuel
    obtain ⟨fuel, rfl⟩ : ∃ fuel', fuel = fuel' + 1 := ⟨fuel - 1, by omega⟩
    exact hstep fuel index r hr (hbound fuel (by omega))

end Constrained

/-- **A lookup returns when the chains of its index end.** -/
theorem returns_of_acc (text : NumberText) (hs : s.Consed structuralHash False)
    (hconstraints : ConstraintsDenote s.store) {index : TypeId}
    (hacc : Acc (fun next index => Chases s.store index next) index)
    (hrow : ∃ r, s.store.row index = some r) :
    ∃ bound, ∀ fuel ≥ bound, ∀ σ, Later structuralHash s σ → ∀ object,
      Returns structuralHash σ (resolveIndexedAccess structuralHash text fuel σ object index) := by
  apply exists_fuel_of_acc hs hconstraints _ hacc hrow
  intro fuel index r hr hbound σ hσ object
  unfold resolveIndexedAccess
  dsimp only
  split
  · exact returns_done hσ.consed
  · split
    · rename_i members hunion
      have hunion' : s.store.unionMembers index = some members := by
        rw [← hunion]
        exact (hσ.grown.entry_eq hr .unions).symm
      have hself : Later structuralHash σ σ := ⟨.refl σ, hσ.consed, rfl⟩
      obtain ⟨outcome, heach, hlater⟩ := returns_resolveEach hself (fun member hmember τ hτ =>
        hbound member (.member hunion' hmember) τ (hσ.trans hτ)
          ((σ.store.readonlyOperand object).getD object))
      rw [heach]
      refine ⟨_, rfl, ?_⟩
      intro result τ heq
      obtain ⟨⟨resolved, υ⟩, rfl, hmade⟩ := bind_eq_some_iff.mp heq
      have hυ := hlater resolved υ rfl
      exact hυ.trans (later_union hυ.consed hmade)
    · apply returns_resolveSingle hσ.consed
      intro constraint hchases
      exact hbound constraint (hchases.of_later hσ hr) σ hσ _

theorem exists_anyM {A : Type} {p : A → Option Bool} {xs : List A}
    (h : ∀ x ∈ xs, ∃ answer, p x = some answer) : ∃ answer, xs.anyM p = some answer := by
  induction xs with
  | nil => exact ⟨false, rfl⟩
  | cons x rest ih =>
    obtain ⟨answer, hx⟩ := h x mem_cons_self
    obtain ⟨other, hrest⟩ := ih (fun y hy => h y (mem_cons_of_mem _ hy))
    unfold anyM
    rw [hx]
    cases answer with
    | true => exact ⟨true, rfl⟩
    | false => exact ⟨other, hrest⟩

/-- **The demand test returns when the chains of its index end.** -/
theorem demand_returns_of_acc (hs : s.Consed structuralHash regular)
    (hconstraints : ConstraintsDenote s.store) {index : TypeId}
    (hacc : Acc (fun next index => Chases s.store index next) index)
    (hrow : ∃ r, s.store.row index = some r) :
    ∃ bound, ∀ fuel ≥ bound, ∃ answer, indexRequiresDemand s.store fuel index = some answer := by
  apply exists_fuel_of_acc hs hconstraints _ hacc hrow
  intro fuel index r hr hbound
  unfold indexRequiresDemand
  rw [tag_of_row hr, bind_some]
  cases r <;> simp only [Row.tag, some.injEq, exists_eq']
  case union members =>
    have hunion : s.store.unionMembers index = some members :=
      (s.store.entry_eq_some_iff .unions index members).mpr hr
    rw [hunion]
    exact exists_anyM (fun next hmem => hbound next (.member hunion hmem))
  case typeParam parameter =>
    have hparameter : s.store.typeParam index = some parameter :=
      (s.store.entry_eq_some_iff .typeParams index parameter).mpr hr
    rw [hparameter, bind_some]
    cases hconstraint : s.store.typeParamConstraint parameter.id with
    | none => exact ⟨_, rfl⟩
    | some constraint =>
      dsimp only
      by_cases hne : constraint = index
      · rw [if_pos (by simpa using hne)]
        exact ⟨_, rfl⟩
      · rw [if_neg (by simpa using hne)]
        exact hbound constraint (.constraint hparameter hconstraint hne)

/-! ### Chains that go on -/

/-- What is found under a number: the error type, or unions of it. -/
def Bare (σ : Interner) (result : TypeId) : Prop :=
  result = σ.wellKnown.error ∨ result = σ.wellKnown.any ∨ result = σ.wellKnown.never

theorem union_bare (structuralHash : StructuralKey → Nat) (hσ : σ.Consed structuralHash regular)
    (hknown : σ.KnowsIntrinsics)
    (hmembers : ∀ member ∈ members, Bare σ member) :
    ∃ result, σ.union structuralHash members = some (result, σ) ∧ Bare σ result := by
  have hkind : ∀ member ∈ members, ∃ kind, member = σ.wellKnown.id kind := by
    intro member hmember
    rcases hmembers member hmember with rfl | rfl | rfl
    · exact ⟨.error, rfl⟩
    · exact ⟨.any, rfl⟩
    · exact ⟨.never, rfl⟩
  have hrows : ∀ member ∈ members, ∃ r, σ.store.row member = some r := by
    intro member hmember
    obtain ⟨kind, rfl⟩ := hkind member hmember
    exact ⟨_, hknown.row kind⟩
  have hflat : flattened σ.store.unionMembers members = members := by
    have hsingle : ∀ member ∈ members, expand σ.store.unionMembers member = [member] := by
      intro member hmember
      obtain ⟨kind, rfl⟩ := hkind member hmember
      exact expand_wellKnown (t := .unions) hknown (by simp [SideTable.tag])
        (fun _ => unionMembers_of_tag_ne) kind
    unfold flattened
    rw [flatMap_congr hsingle]
    simp
  obtain ⟨hunion, _⟩ := union_eq structuralHash hσ hrows
  rw [hflat] at hunion
  by_cases htop : σ.wellKnown.any ∈ members ∨ σ.wellKnown.error ∈ members
  · rw [unionOfFlat_of_top htop] at hunion
    exact ⟨_, hunion, .inr (.inl rfl)⟩
  · -- only `never` is left, and there may be no member at all
    rw [not_or] at htop
    have hnever : ∀ member ∈ members, member = σ.wellKnown.never := by
      intro member hmember
      rcases hmembers member hmember with rfl | rfl | rfl
      · exact absurd hmember htop.2
      · exact absurd hmember htop.1
      · rfl
    rw [unionOfFlat_of_never hknown hnever] at hunion
    exact ⟨_, hunion, .inr (.inr rfl)⟩

theorem resolveEach_bare {resolve : Interner → TypeId → Option (Option (TypeId × Interner))}
    (h : ∀ member outcome, resolve σ member = some outcome →
      ∃ result, outcome = some (result, σ) ∧ Bare σ result)
    {outcome : Option (List TypeId × Interner)}
    (hcall : resolveEach resolve σ members = some outcome) :
    ∃ results, outcome = some (results, σ) ∧ (∀ result ∈ results, Bare σ result) ∧
      ∀ member ∈ members, resolve σ member ≠ none := by
  induction members generalizing outcome with
  | nil =>
    unfold resolveEach at hcall
    cases hcall
    exact ⟨[], rfl, by simp, by simp⟩
  | cons member rest ih =>
    unfold resolveEach at hcall
    cases hmember : resolve σ member with
    | none =>
      rw [hmember] at hcall
      cases hcall
    | some made =>
      obtain ⟨result, rfl, hresult⟩ := h member made hmember
      rw [hmember] at hcall
      obtain ⟨outcome', hrest, rfl⟩ := map_eq_some_iff.mp hcall
      obtain ⟨results, rfl, hresults, hnone⟩ := ih hrest
      refine ⟨result :: results, rfl, ?_, ?_⟩
      · intro other hother
        rcases mem_cons.mp hother with rfl | hother
        · exact hresult
        · exact hresults other hother
      · intro other hother
        rcases mem_cons.mp hother with rfl | hother
        · rw [hmember]
          simp
        · exact hnone other hother

/-- A number has no members and no elements: only the constraint of the index leads on. -/
theorem resolveSingle_number (hknown : σ.KnowsIntrinsics) {index : TypeId}
    (hunion : σ.store.unionMembers index = none) :
    (∃ constraint, Chases σ.store index constraint ∧
      resolveSingle text resolve σ σ.wellKnown.number index
        = resolve σ σ.wellKnown.number constraint) ∨
    (¬ ∃ next, Chases σ.store index next) ∧
      resolveSingle text resolve σ σ.wellKnown.number index
        = some (some (σ.wellKnown.error, σ)) := by
  have hrow := hknown.row .number
  simp only [WellKnown.id] at hrow
  have htag := tag_of_row hrow
  -- an intrinsic has no entry in any side table
  have hentry : ∀ t : SideTable, σ.store.entry t σ.wellKnown.number = none := by
    intro t
    apply if_neg
    rw [htag]
    cases t <;> simp [Row.tag, SideTable.tag]
  have hobject : σ.store.objectType σ.wellKnown.number = none := hentry .objects
  have harray : σ.store.arrayType σ.wellKnown.number = none := hentry .arrays
  have hnext : σ.store.typeParam index = none → ¬ ∃ next, Chases σ.store index next := by
    intro hparameter hfollow
    obtain ⟨next, hchases⟩ := hfollow
    cases hchases with
    | member hmembers =>
      rw [hunion] at hmembers
      cases hmembers
    | constraint hsome =>
      rw [hparameter] at hsome
      cases hsome
  have hleaf : ∀ {value : LiteralValue}, σ.store.literalValue index = some value →
      ¬ ∃ next, Chases σ.store index next := by
    intro value hvalue
    apply hnext
    have hliteral : σ.store.row index = some (.literal value) :=
      (σ.store.entry_eq_some_iff .literals index value).mp hvalue
    apply if_neg
    simp [tag_of_row hliteral, Row.tag, SideTable.tag]
  cases hliteral : σ.store.literalValue index with
  | some value =>
    right
    refine ⟨hleaf hliteral, ?_⟩
    have hindex : index ≠ σ.wellKnown.number := by
      intro heq
      have hnone : σ.store.literalValue index = none := by
        rw [heq]
        exact hentry .literals
      rw [hliteral] at hnone
      cases hnone
    have hparameter : σ.store.typeParam index = none := by
      have hrow' : σ.store.row index = some (.literal value) :=
        (σ.store.entry_eq_some_iff .literals index value).mp hliteral
      apply if_neg
      simp [tag_of_row hrow', Row.tag, SideTable.tag]
    unfold resolveSingle
    dsimp only
    rw [hliteral]
    cases value <;> simp [hobject, harray, htag, Row.tag, hindex, hparameter]
  | none =>
    unfold resolveSingle
    dsimp only
    rw [hliteral]
    by_cases hindex : index = σ.wellKnown.number
    · right
      refine ⟨hnext ?_, ?_⟩
      · rw [hindex]
        exact hentry .typeParams
      · simp [hindex, hobject, harray]
    · rw [if_neg (by simpa using hindex)]
      cases hparameter : σ.store.typeParam index with
      | none =>
        right
        exact ⟨hnext hparameter, rfl⟩
      | some parameter =>
        rw [bind_some]
        cases hconstraint : σ.store.typeParamConstraint parameter.id with
        | none =>
          right
          refine ⟨?_, rfl⟩
          intro hfollow
          obtain ⟨next, hchases⟩ := hfollow
          cases hchases with
          | member hmembers =>
            rw [hunion] at hmembers
            cases hmembers
          | constraint hsome hsome' =>
            rw [hparameter, some.injEq] at hsome
            rw [← hsome, hconstraint] at hsome'
            cases hsome'
        | some constraint =>
          dsimp only
          by_cases hne : constraint = index
          · right
            refine ⟨?_, if_neg (by simpa using hne)⟩
            intro hfollow
            obtain ⟨next, hchases⟩ := hfollow
            cases hchases with
            | member hmembers =>
              rw [hunion] at hmembers
              cases hmembers
            | constraint hsome hsome' hne' =>
              rw [hparameter, some.injEq] at hsome
              rw [← hsome, hconstraint, some.injEq] at hsome'
              exact hne' (hsome' ▸ hne)
          · left
            exact ⟨constraint, .constraint hparameter hconstraint hne, if_pos hne⟩

/-- One call for a number unfolded. -/
theorem resolve_number_succ (hknown : σ.KnowsIntrinsics) (fuel : Nat) {index : TypeId}
    (herror : index ≠ σ.wellKnown.error) (hany : index ≠ σ.wellKnown.any) :
    resolveIndexedAccess structuralHash text (fuel + 1) σ σ.wellKnown.number index =
      match σ.store.unionMembers index with
      | some members =>
        (resolveEach (fun σ' member => resolveIndexedAccess structuralHash text fuel σ'
          σ.wellKnown.number member) σ members).map
            (fun outcome => outcome.bind (fun (resolved, σ) => σ.union structuralHash resolved))
      | none => resolveSingle text (resolveIndexedAccess structuralHash text fuel) σ σ.wellKnown.number
          index := by
  have hrow := hknown.row .number
  have h₁ := @wellKnown_ne σ hknown .number .error (by simp)
  have h₂ := @wellKnown_ne σ hknown .number .any (by simp)
  simp only [WellKnown.id] at hrow h₁ h₂
  have hreadonly : σ.store.readonlyOperand σ.wellKnown.number = none := by
    apply if_neg
    simp [tag_of_row hrow, Row.tag]
  conv_lhs => unfold resolveIndexedAccess
  simp [h₁, h₂, herror, hany, hreadonly]

/-- What is found under a number is bare, and nothing is added to the interner. -/
theorem resolve_number (hσ : σ.Consed structuralHash regular) (hknown : σ.KnowsIntrinsics)
    (fuel : Nat) {index : TypeId} {outcome : Option (TypeId × Interner)}
    (h : resolveIndexedAccess structuralHash text fuel σ σ.wellKnown.number index = some outcome) :
    ∃ result, outcome = some (result, σ) ∧ Bare σ result := by
  induction fuel generalizing index outcome with
  | zero => cases h
  | succ fuel ih =>
    by_cases htop : index = σ.wellKnown.error ∨ index = σ.wellKnown.any
    · unfold resolveIndexedAccess at h
      rw [if_pos (by rcases htop with rfl | rfl <;> simp)] at h
      cases h
      exact ⟨_, rfl, .inl rfl⟩
    · rw [not_or] at htop
      rw [resolve_number_succ hknown fuel htop.1 htop.2] at h
      cases hunion : σ.store.unionMembers index with
      | some members =>
        rw [hunion] at h
        obtain ⟨made, heach, rfl⟩ := map_eq_some_iff.mp h
        obtain ⟨results, rfl, hbare, _⟩ := resolveEach_bare (fun _ _ => ih) heach
        obtain ⟨result, hresult, hbare⟩ := union_bare structuralHash hσ hknown
          hbare
        exact ⟨result, hresult, hbare⟩
      | none =>
        rw [hunion] at h
        rcases resolveSingle_number hknown hunion with ⟨constraint, _, heq⟩ | ⟨_, heq⟩
        · rw [heq] at h
          exact ih h
        · rw [heq] at h
          cases h
          exact ⟨_, rfl, .inl rfl⟩

/-- **A lookup whose chains go on never returns.** -/
theorem resolve_never_returns (hσ : σ.Consed structuralHash regular) (hknown : σ.KnowsIntrinsics)
    (fuel : Nat) {index : TypeId}
    (hacc : ¬ Acc (fun next index => Chases σ.store index next) index) :
    resolveIndexedAccess structuralHash text fuel σ σ.wellKnown.number index = none := by
  induction fuel generalizing index with
  | zero => rfl
  | succ fuel ih =>
    -- one of the targets goes on
    obtain ⟨next, hchases, hnext⟩ : ∃ next, Chases σ.store index next ∧
        ¬ Acc (fun next index => Chases σ.store index next) next := by
      by_contra hno
      push Not at hno
      exact hacc ⟨_, hno⟩
    have hleaf : ∀ kind, index ≠ σ.wellKnown.id kind := by
      intro kind heq
      have htag : σ.store.tag index = some .intrinsic := by
        rw [heq]
        exact tag_of_row (hknown.row kind)
      cases hchases with
      | member hmembers =>
        have hrow := (σ.store.entry_eq_some_iff .unions _ _).mp hmembers
        rw [tag_of_row hrow] at htag
        cases htag
      | constraint hparameter =>
        have hrow := (σ.store.entry_eq_some_iff .typeParams _ _).mp hparameter
        rw [tag_of_row hrow] at htag
        cases htag
    rw [resolve_number_succ hknown fuel (hleaf .error) (hleaf .any)]
    cases hunion : σ.store.unionMembers index with
    | some members =>
      dsimp only
      cases heach : resolveEach (fun σ' member => resolveIndexedAccess structuralHash text fuel σ'
          σ.wellKnown.number member) σ members with
      | none => rfl
      | some outcome =>
        obtain ⟨_, _, _, hsome⟩ := resolveEach_bare
          (fun _ _ => resolve_number hσ hknown fuel) heach
        exact absurd (ih hnext) (hsome next (hchases.of_union hunion))
    | none =>
      rcases resolveSingle_number hknown hunion with ⟨constraint, hconstraint, heq⟩ | ⟨hno, _⟩
      · rw [heq, hchases.unique hunion hconstraint]
        exact ih hnext
      · exact absurd ⟨next, hchases⟩ hno

/-- Chains end when none of them runs into a cycle. -/
theorem acc_iff_no_cycle (hs : s.Consed structuralHash regular)
    (hconstraints : ConstraintsDenote s.store) {index : TypeId}
    (hrow : ∃ r, s.store.row index = some r) :
    Acc (fun next index => Chases s.store index next) index ↔
      ¬ ∃ id, Relation.ReflTransGen (Chases s.store) index id ∧
        Relation.TransGen (Chases s.store) id id := by
  apply Lib.acc_iff_no_cycle
  -- everything that is reached is in the store
  apply (Set.finite_lt_nat s.store.len).subset
  intro id hpath
  have hid : ∃ r, s.store.row id = some r := by
    cases hpath with
    | refl => exact hrow
    | tail _ hchases => exact hchases.row hs hconstraints
  obtain ⟨r, hr⟩ := hid
  exact hs.wellFormed.lt_of_row hr

/-- **The two functions return for an index, whatever it is looked up in, exactly when no cycle
    of constraints is reached from it.**  A parameter that is its own constraint is no cycle
    here: both functions stop at it. -/
theorem indexing_finishes_iff (text : NumberText) (hσ : σ.Reachable structuralHash)
    (hconstraints : ∀ parameter constraint,
      σ.store.typeParamConstraint parameter = some constraint →
      ∃ r, σ.store.row constraint = some r) {index : TypeId}
    (hrow : ∃ r, σ.store.row index = some r) :
    ((∀ object, ∃ fuel, resolveIndexedAccess structuralHash text fuel σ object index ≠ none) ∧
      ∃ fuel, indexRequiresDemand σ.store fuel index ≠ none) ↔
    ¬ ∃ id, Relation.ReflTransGen (Chases σ.store) index id ∧
      Relation.TransGen (Chases σ.store) id id := by
  have hconsed := hσ.consed
  rw [← acc_iff_no_cycle hconsed hconstraints hrow]
  constructor
  · intro ⟨hresolve, _⟩
    by_contra hacc
    obtain ⟨fuel, hfuel⟩ := hresolve σ.wellKnown.number
    exact hfuel (resolve_never_returns hconsed hσ.knowsIntrinsics fuel hacc)
  · intro hacc
    constructor
    · obtain ⟨bound, hbound⟩ := returns_of_acc text hconsed hconstraints hacc hrow
      intro object
      obtain ⟨outcome, hcall, _⟩ := hbound bound le_rfl σ ⟨.refl σ, hconsed, rfl⟩ object
      exact ⟨bound, by simp [hcall]⟩
    · obtain ⟨bound, hbound⟩ := demand_returns_of_acc hconsed hconstraints hacc hrow
      obtain ⟨answer, hanswer⟩ := hbound bound le_rfl
      exact ⟨bound, by simp [hanswer]⟩

theorem demand_of_param {store : Store} {index constraint : TypeId} {parameter : TypeParamType}
    (hparameter : store.row index = some (.typeParam parameter))
    (hconstraint : store.typeParamConstraint parameter.id = some constraint)
    (hne : constraint ≠ index) (fuel : Nat) :
    indexRequiresDemand store (fuel + 1) index = indexRequiresDemand store fuel constraint := by
  have hentry : store.typeParam index = some parameter :=
    (store.entry_eq_some_iff .typeParams index parameter).mpr hparameter
  conv_lhs => unfold indexRequiresDemand
  simp [tag_of_row hparameter, Row.tag, hentry, hconstraint, hne]

/-- With `A extends B` and `B extends A` neither function returns for `A`. -/
theorem indexing_under_circular_constraints :
    ∃ σ : Interner, ∃ object index, σ.Reachable (fun _ => 0) ∧
      (∃ r, σ.store.row object = some r) ∧ (∃ r, σ.store.row index = some r) ∧
      ∀ fuel, resolveIndexedAccess (fun _ => 0) wholeTexts fuel σ object index = none ∧
        indexRequiresDemand σ.store fuel index = none := by
  obtain ⟨reached, hrun, hA, hB, hconstraintA, hconstraintB⟩ := exists_of_run
    (r := runHistory (fun _ => 0) 0 [.internTypeParam 0 "A", .internTypeParam 1 "B",
      .setTypeParamConstraint 0 20, .setTypeParamConstraint 1 19]
      (withIntrinsics (fun _ => 0)))
    (P := fun reached => reached.2.store.row 19 = some (.typeParam ⟨0, "A"⟩) ∧
      reached.2.store.row 20 = some (.typeParam ⟨1, "B"⟩) ∧
      reached.2.store.typeParamConstraint 0 = some 20 ∧
      reached.2.store.typeParamConstraint 1 = some 19) (by decide +kernel)
  have hreach : reached.2.Reachable (fun _ => 0) := ⟨0, _, reached.1, hrun⟩
  have hentryA : reached.2.store.typeParam 19 = some ⟨0, "A"⟩ :=
    (reached.2.store.entry_eq_some_iff .typeParams 19 ⟨0, "A"⟩).mpr hA
  have hentryB : reached.2.store.typeParam 20 = some ⟨1, "B"⟩ :=
    (reached.2.store.entry_eq_some_iff .typeParams 20 ⟨1, "B"⟩).mpr hB
  have hchasesA : Chases reached.2.store 19 20 :=
    .constraint hentryA hconstraintA (by decide)
  have hchasesB : Chases reached.2.store 20 19 :=
    .constraint hentryB hconstraintB (by decide)
  have hacc : ¬ Acc (fun next index => Chases reached.2.store index next) 19 := by
    have hrest : ∀ {index : TypeId}, Acc (fun next index => Chases reached.2.store index next)
        index → index ≠ 19 ∧ index ≠ 20 := by
      intro index hindex
      induction hindex with
      | intro index _ ih =>
        constructor
        · intro heq
          rw [heq] at ih
          exact (ih 20 hchasesA).2 rfl
        · intro heq
          rw [heq] at ih
          exact (ih 19 hchasesB).1 rfl
    exact fun h => (hrest h).1 rfl
  have hdemand : ∀ fuel, indexRequiresDemand reached.2.store fuel 19 = none ∧
      indexRequiresDemand reached.2.store fuel 20 = none := by
    intro fuel
    induction fuel with
    | zero => exact ⟨rfl, rfl⟩
    | succ fuel ih =>
      rw [demand_of_param hA hconstraintA (by decide), demand_of_param hB hconstraintB (by decide)]
      exact ⟨ih.2, ih.1⟩
  refine ⟨reached.2, reached.2.wellKnown.number, 19, hreach,
    ⟨_, hreach.knowsIntrinsics.row .number⟩, ⟨_, hA⟩, ?_⟩
  intro fuel
  exact ⟨resolve_never_returns hreach.consed hreach.knowsIntrinsics fuel hacc, (hdemand fuel).1⟩

/-- The members and the constraint that lead on from each type of `A | S` (22), with `A extends B`
    (19), `B extends string` (20) and `S extends S` (21). -/
def chainLinks (id : TypeId) : Option (List TypeId) × Option TypeId :=
  if id = 22 then (some [19, 21], none)
  else if id = 19 then (none, some 20)
  else if id = 20 then (none, some 9)
  else if id = 21 then (none, some 21)
  else (none, none)

/-- Both functions return for the union of a parameter whose chain ends and one that is its own
    constraint. -/
theorem indexing_finishes_iff_union :
    ∃ σ : Interner, σ.Reachable (fun _ => 0) ∧ σ.store.len = 23 ∧
      (∀ id ∈ List.range 23, (σ.store.unionMembers id, (σ.store.typeParam id).bind
        (fun parameter => σ.store.typeParamConstraint parameter.id)) = chainLinks id) ∧
      (∀ object, ∃ fuel, resolveIndexedAccess (fun _ => 0) wholeTexts fuel σ object 22 ≠ none) ∧
        ∃ fuel, indexRequiresDemand σ.store fuel 22 ≠ none := by
  obtain ⟨reached, hrun, hlen, hlinks, hbase, hoverrides, hsuffix⟩ := exists_of_run
    (r := runHistory (fun _ => 0) 0 [.internTypeParam 0 "A", .internTypeParam 1 "B",
      .internTypeParam 2 "S", .setTypeParamConstraint 0 20, .setTypeParamConstraint 1 9,
      .setTypeParamConstraint 2 21, .union [19, 21]] (withIntrinsics (fun _ => 0)))
    (P := fun reached => reached.2.store.len = 23 ∧
      (∀ id ∈ List.range 23, (reached.2.store.unionMembers id, (reached.2.store.typeParam id).bind
        (fun parameter => reached.2.store.typeParamConstraint parameter.id)) = chainLinks id) ∧
      reached.2.store.typeParamConstraints.base.keys = ∅ ∧
      reached.2.store.typeParamConstraints.overrides.keys = ∅ ∧
      ∀ key ∈ reached.2.store.typeParamConstraints.suffix.keys,
        (reached.2.store.typeParamConstraint key).all (fun constraint => constraint < 23) = true)
    (by decide +kernel)
  have hreach : reached.2.Reachable (fun _ => 0) := ⟨0, _, reached.1, hrun⟩
  generalize reached.2 = σ at hreach hlen hlinks hbase hoverrides hsuffix
  have hsome : ∀ {id : Nat}, id < 23 → ∃ r, σ.store.row id = some r :=
    fun hid => hreach.consed.wellFormed.row_isSome (hlen ▸ hid)
  have hconstraints : ∀ parameter constraint,
      σ.store.typeParamConstraint parameter = some constraint →
      ∃ r, σ.store.row constraint = some r := by
    intro parameter constraint hconstraint
    -- only the suffix has entries
    have hkey : parameter ∈ σ.store.typeParamConstraints.suffix.keys := by
      rw [Finmap.mem_keys, ← Finmap.lookup_isSome]
      have hno : ∀ m : FxHashMap TypeParamId TypeId, m.keys = ∅ → m.lookup parameter = none :=
        fun m hm => Finmap.lookup_eq_none.mpr (by rw [← Finmap.mem_keys, hm]; simp)
      unfold typeParamConstraint LayeredMap.get at hconstraint
      rw [hno _ hbase, hno _ hoverrides] at hconstraint
      simp at hconstraint
      rw [hconstraint]
      rfl
    have hlt := hsuffix parameter hkey
    rw [hconstraint] at hlt
    exact hsome (of_decide_eq_true hlt)
  -- each link leads one step down
  let rank : TypeId → Nat := fun id =>
    if id = 22 then 3 else if id = 19 then 2 else if id = 20 then 1 else 0
  have hdown : ∀ {index next}, Chases σ.store index next → rank next < rank index := by
    intro index next hchases
    have hlt : index < 23 := by
      rw [← hlen]
      cases hchases with
      | member hmembers =>
        exact hreach.consed.wellFormed.lt_of_row
          ((σ.store.entry_eq_some_iff .unions index _).mp hmembers)
      | constraint hparameter =>
        exact hreach.consed.wellFormed.lt_of_row
          ((σ.store.entry_eq_some_iff .typeParams index _).mp hparameter)
    have hlink := hlinks index (List.mem_range.mpr hlt)
    cases hchases with
    | member hmembers hnext =>
      rw [hmembers] at hlink
      unfold chainLinks at hlink
      split at hlink
      · simp_all [rank]
        grind
      · grind
    | constraint hparameter hconstraint hne =>
      rw [hparameter, bind_some, hconstraint] at hlink
      unfold chainLinks at hlink
      grind
  have hcycle : ¬ ∃ id, Relation.ReflTransGen (Chases σ.store) 22 id ∧
      Relation.TransGen (Chases σ.store) id id := by
    intro ⟨id, _, hid⟩
    have hless : ∀ {first last}, Relation.TransGen (Chases σ.store) first last →
        rank last < rank first := by
      intro first last hpath
      induction hpath with
      | single hstep => exact hdown hstep
      | tail _ hstep ih => exact (hdown hstep).trans ih
    exact lt_irrefl _ (hless hid)
  have hindex : ∃ r, σ.store.row 22 = some r := hsome (by decide)
  obtain ⟨hresolve, hdemand⟩ :=
    (indexing_finishes_iff wholeTexts hreach hconstraints hindex).mpr hcycle
  exact ⟨σ, hreach, hlen, hlinks, hresolve, hdemand⟩

end Termination

end Typokat.Check
