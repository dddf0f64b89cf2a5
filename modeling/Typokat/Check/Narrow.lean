import Typokat.Check.FlowNodes
import Typokat.Types.Reading

/-!
# Narrowing (`check/flow.rs`)

The narrowing operations that filter the members of a type under a guard.  A type that is
no union counts as its only member; `any` and the error type are never narrowed.

A guard that looks at the value alone (`typeof`, truthiness, comparison with `null` and
`undefined`) is read as a test on values.  A branch keeps every value for which its guard
comes out that way except where a member does not show its values in its row: `unknown`, a
type parameter, an intersection, an object or a deferred row counts as no match.  The falsy
branch counts every object row as truthy, and `{}` has falsy values.

## Main Results

- `filterUnion_spec` : which members a branch keeps
- `narrow_keeps_iff` : when a branch keeps every value that takes it
-/

namespace Typokat.Check

open Types Interner List

/-! ## §1 Filtering members -/

/-- `TypeofTag::intrinsic`. -/
def TypeofTag.intrinsic : TypeofTag → IntrinsicKind
  | .string => .string
  | .number => .number
  | .boolean => .boolean

/-- `filter` with a test that may panic. -/
def filterMembers (keep : TypeId → Option Bool) : List TypeId → Option (List TypeId)
  | [] => some []
  | member :: rest => do
    let kept ← keep member
    let rest ← filterMembers keep rest
    some (if kept then member :: rest else rest)

/-- `member_matches_typeof`; `none` is the panic of an id without a row. -/
def memberMatchesTypeof (store : Store) (member : TypeId) (tag : TypeofTag) : Option Bool :=
  (store.tag member).map (fun
    | .intrinsic => store.intrinsicKind member == some tag.intrinsic
    | .literal => (store.literalValue member).map LiteralValue.baseKind == some tag.intrinsic
    -- a template literal type is a subtype of `string`
    | .template => tag.intrinsic == .string
    | .object | .function | .union | .intersection | .typeParam | .array | .tuple | .readonly
    | .conditional | .instantiation | .classInstance | .infer | .mapped | .mappedValue | .keyof
    | .deferredIndexedAccess | .declared => false)

/-- `is_always_truthy`. -/
def isAlwaysTruthy (store : Store) (member : TypeId) : Option Bool :=
  (store.tag member).map (fun
    | .object | .function | .array | .readonly => true
    | _ => false)

section Narrow

variable (structuralHash : StructuralKey → Nat)

variable (interner : Interner)

variable (ty : TypeId)

/-- `filter_union`. -/
def filterUnion (keep : Store → TypeId → Option Bool) :
    Option (TypeId × Interner) :=
  let wk := interner.wellKnown
  if ty = wk.any ∨ ty = wk.error then some (ty, interner)
  else
    match interner.store.unionMembers ty with
    | some members => do
      let kept ← filterMembers (keep interner.store) members
      interner.union structuralHash kept
    | none => do
      let kept ← keep interner.store ty
      some (if kept then (ty, interner) else (wk.never, interner))

/-- `narrow_by_typeof`. -/
def narrowByTypeof (tag : TypeofTag) (keep : Bool) :
    Option (TypeId × Interner) :=
  filterUnion structuralHash interner ty (fun store member =>
    (memberMatchesTypeof store member tag).map (fun matched => matched == keep))

/-- Whether a truthiness branch keeps a member other than `boolean`. -/
def truthyKeeps (truthy : Bool) (member : TypeId) : Option Bool :=
  let wk := interner.wellKnown
  match interner.store.literalValue member with
  | some (.boolean value) => some (value == truthy)
  | _ =>
    if truthy then some (decide (member ≠ wk.null ∧ member ≠ wk.undefined))
    else (isAlwaysTruthy interner.store member).map (fun always => !always)

/-- What a truthiness branch makes of a member: the literal branch for `boolean`, and the
    member itself or nothing otherwise. -/
def truthyPart (booleanBranch : TypeId) (truthy : Bool) (member : TypeId) :
    Option (Option TypeId) :=
  if member = interner.wellKnown.boolean then some (some booleanBranch)
  else (truthyKeeps interner truthy member).map (fun keep => if keep then some member else none)

/-- The loop of `narrow_by_truthiness` over the members. -/
def truthyParts (interner : Interner) (booleanBranch : TypeId) (truthy : Bool) :
    List TypeId → Option (List TypeId)
  | [] => some []
  | member :: rest => do
    let part ← truthyPart interner booleanBranch truthy member
    let rest ← truthyParts interner booleanBranch truthy rest
    some (part.toList ++ rest)

/-- `narrow_by_truthiness`. -/
def narrowByTruthiness (truthy : Bool) :
    Option (TypeId × Interner) :=
  let wk := interner.wellKnown
  if ty = wk.any ∨ ty = wk.error then some (ty, interner)
  else do
    let (booleanBranch, interner) := interner.internLiteral structuralHash (.boolean truthy)
    let members := (interner.store.unionMembers ty).getD [ty]
    let narrowed ← truthyParts interner booleanBranch truthy members
    interner.union structuralHash narrowed

/-- `narrow_by_nullish_equality`. -/
def narrowByNullishEquality (isUndefined positive : Bool) :
    Option (TypeId × Interner) :=
  let wk := interner.wellKnown
  let target := if isUndefined then wk.undefined else wk.null
  filterUnion structuralHash interner ty (fun _ member =>
    some (decide (member = target) == positive))

/-! ### Property guards -/

/-- `literal_could_equal_property`.  The descent only passes rows that were made after their
    operands, so a chain is no longer than the store; `none` is an endless descent. -/
def literalCouldEqualProperty (store : Store) (literal : TypeId) (wk : WellKnown) :
    Nat → TypeId → Option Bool
  | fuel, property =>
    if literal = property ∨ property = wk.any ∨ property = wk.error then some true
    else
      match fuel, store.tag property with
      | _, some .literal => some false
      | _, some .intrinsic =>
        some (match store.literalValue literal with
          | some value => store.intrinsicKind property == some value.baseKind
          | none => false)
      | fuel + 1, some .union =>
        match store.unionMembers property with
        | none => some true
        | some members => members.anyM (literalCouldEqualProperty store literal wk fuel)
      | fuel + 1, some .intersection =>
        match store.intersectionMembers property with
        | none => some true
        | some members => members.allM (literalCouldEqualProperty store literal wk fuel)
      | fuel + 1, some .readonly =>
        match store.readonlyOperand property with
        | none => some true
        | some operand => literalCouldEqualProperty store literal wk fuel operand
      | _, some .object | _, some .function | _, some .array | _, some .tuple => some false
      | _, some .typeParam | _, some .template | _, some .conditional | _, some .instantiation
      | _, some .classInstance | _, some .infer | _, some .mapped | _, some .mappedValue
      | _, some .keyof | _, some .deferredIndexedAccess | _, some .declared => some true
      | _, _ => none

/-- `discriminant_keeps`. -/
def discriminantKeeps (store : Store) (member : TypeId) (propTy : Option TypeId) (literal : TypeId)
    (wk : WellKnown) (positive : Bool) : Option Bool :=
  if member = wk.any ∨ member = wk.error then some true
  else
    match propTy with
    | none => some true
    | some propTy =>
      if positive then literalCouldEqualProperty store literal wk store.len propTy
      else some (decide (propTy ≠ literal))

/-- `narrow_by_discriminant`. -/
def narrowByDiscriminant (property : String) (literal : TypeId) (positive : Bool) :
    Option (TypeId × Interner) :=
  let wk := interner.wellKnown
  if ty = wk.any ∨ ty = wk.error then some (ty, interner)
  else do
    let store := interner.store
    let members := (store.unionMembers ty).getD [ty]
    let kept ← filterMembers (fun member =>
      let propTy := ((store.objectType member).bind (fun object => object.property property)).map
        (fun prop => prop.ty)
      discriminantKeeps store member propTy literal wk positive) members
    interner.union structuralHash kept

/-- `narrow_by_in_operator`. -/
def narrowByInOperator (property : String) (positive : Bool) :
    Option (TypeId × Interner) :=
  let wk := interner.wellKnown
  filterUnion structuralHash interner ty (fun store member =>
    if member = wk.any ∨ member = wk.error then some true
    else
      let hasProperty := (store.objectType member).any
        (fun object => (object.property property).isSome)
      (store.tag member).map (fun tag =>
        if positive then hasProperty else !(tag == .object && hasProperty)))

/-- `narrow`: apply a guard under branch polarity. -/
def narrow (op : NarrowOp) (positive : Bool) :
    Option (TypeId × Interner) :=
  match op with
  | .typeof tag => narrowByTypeof structuralHash interner ty tag positive
  | .truthy => narrowByTruthiness structuralHash interner ty positive
  | .eqNullish isUndefined =>
    narrowByNullishEquality structuralHash interner ty isUndefined positive
  | .discriminant property literal =>
    narrowByDiscriminant structuralHash interner ty property literal positive
  | .in property => narrowByInOperator structuralHash interner ty property positive

end Narrow

/-! ## §2 Guards as tests on values -/

/-- The text that a `typeof` comparison names. -/
def TypeofTag.text : TypeofTag → String
  | .string => "string"
  | .number => "number"
  | .boolean => "boolean"

/-- The guards that look at the value alone, as tests; a property guard is none. -/
def NarrowOp.test {R : Type} : NarrowOp → Option (Value R → Bool)
  | .typeof tag => some (fun v => v.typeof == tag.text)
  | .truthy => some Value.truthy
  | .eqNullish isUndefined => some (fun
    | .undefined => isUndefined
    | .null => !isUndefined
    | _ => false)
  | .discriminant _ _ => none
  | .in _ => none

/-- Rows that show which values a type can have: no top type, type parameter, intersection,
    object or deferred row. -/
def Row.ShowsValues : Row → Prop
  | .intrinsic kind => kind ≠ .any ∧ kind ≠ .error ∧ kind ≠ .unknown
  | .literal _ => True
  | .template _ => True
  | .function _ => True
  | .array _ => True
  | .tuple _ => True
  | .readonly _ => True
  | _ => False

/-- Rows that a branch of a guard keeps if one of their values takes it.  A truthiness branch
    keeps what it does not know, and takes an object for truthy; `void` is not compared with
    `undefined`. -/
def NarrowOp.Sees : NarrowOp → Bool → Row → Prop
  | .truthy, positive, r => positive = true ∨ r.tag ≠ .object
  | .eqNullish isUndefined, positive, r =>
    positive = true → Row.ShowsValues r ∧ (isUndefined = true → r ≠ .intrinsic .void)
  | _, positive, r => positive = true → Row.ShowsValues r

/-- The members of a type: itself, unless it is a union. -/
def constituents (interner : Interner) (ty : TypeId) : List TypeId :=
  Interner.expand interner.store.unionMembers ty

/-- `any` and the error type are not narrowed. -/
def IsTop (interner : Interner) (ty : TypeId) : Prop :=
  ty = interner.wellKnown.any ∨ ty = interner.wellKnown.error

section Filter

variable {structuralHash : StructuralKey → Nat} {regular : Prop} {σ : Interner} {R : Type}

theorem filterMembers_eq {keep : TypeId → Option Bool} {p : TypeId → Bool} {members : List TypeId}
    (h : ∀ member ∈ members, keep member = some (p member)) :
    filterMembers keep members = some (members.filter p) := by
  induction members with
  | nil => rfl
  | cons member rest ih =>
    have hrest := ih (fun other hother => h other (mem_cons_of_mem _ hother))
    cases hp : p member <;> simp [filterMembers, h member mem_cons_self, hrest, hp]

section Constituents

variable (hσ : σ.Consed structuralHash regular) {ty : TypeId} {row : Row}
include hσ

/-- The members of a type of the store have rows. -/
theorem row_of_constituent (hrow : σ.store.row ty = some row) {member : TypeId}
    (hmember : member ∈ constituents σ ty) :
    ∃ r, σ.store.row member = some r := by
  unfold constituents at hmember
  cases hnested : σ.store.unionMembers ty with
  | none =>
    rw [expand_of_none hnested, mem_singleton] at hmember
    rw [hmember]
    exact ⟨row, hrow⟩
  | some members =>
    rw [expand_of_some hnested] at hmember
    exact row_of_unionMembers hσ hnested member hmember

section Typeof

variable (hknown : σ.KnowsIntrinsics) (hrow : σ.store.row ty = some row)
  {keep : Store → TypeId → Option Bool}
include hknown hrow

/-- **What a filter leaves** are the values of the members it keeps. -/
theorem filterUnion_spec {p : TypeId → Bool}
    (hkeep : ∀ member r, σ.store.row member = some r → keep σ.store member = some (p member))
    (htop : ¬ IsTop σ ty) :
    ∃ result, filterUnion structuralHash σ ty keep = some result ∧
      Interner.Extends σ result.2 ∧ ∀ (ρ : Reading R result.2.store) (v : Value R),
        v ∈ ρ.values result.1 ↔
          ∃ member ∈ constituents σ ty, p member = true ∧ v ∈ ρ.values member := by
  have hkept : ∀ member ∈ constituents σ ty, keep σ.store member = some (p member) := by
    intro member hmember
    obtain ⟨r, hr⟩ := row_of_constituent hσ hrow hmember
    exact hkeep member r hr
  have htop' : ¬ (ty = σ.wellKnown.any ∨ ty = σ.wellKnown.error) := htop
  unfold filterUnion
  simp only [if_neg htop']
  cases hnested : σ.store.unionMembers ty with
  | some members =>
    have hparts : constituents σ ty = members := expand_of_some hnested
    rw [hparts] at hkept ⊢
    have hrows : ∀ member ∈ members.filter p, ∃ r, σ.store.row member = some r := by
      intro member hmember
      apply row_of_constituent hσ hrow
      rw [hparts]
      exact (mem_filter.mp hmember).1
    obtain ⟨flat, result, hresult, _⟩ := union_spec hσ hrows
    refine ⟨result, ?_, (extends_union hσ hresult).1, ?_⟩
    · simp [filterMembers_eq hkept, hresult]
    · intro ρ v
      rw [Reading.mem_union hσ hknown hrows hresult ρ v]
      simp [mem_filter, and_assoc]
  | none =>
    have hparts : constituents σ ty = [ty] := expand_of_none hnested
    rw [hparts] at hkept ⊢
    have hself := hkept ty (mem_singleton.mpr rfl)
    cases hp : p ty with
    | true =>
      refine ⟨(ty, σ), by simp [hself, hp], Interner.Extends.refl σ, ?_⟩
      intro ρ v
      simp [hp]
    | false =>
      refine ⟨(σ.wellKnown.never, σ), by simp [hself, hp], Interner.Extends.refl σ, ?_⟩
      intro ρ v
      -- nothing is a value of `never`
      have hnever := ρ.intrinsic (hknown.row .never) v
      simp only [WellKnown.id] at hnever
      simp [hp, hnever, IntrinsicKind.Holds]

/-- When the branch of a guard that a filter decides keeps every value: only the branch in
    which the guard holds has to see them. -/
theorem filterUnion_keeps_iff (test : Value R → Bool) (sees : Row → Prop) (matched : Row → Bool)
    (positive : Bool) (hkeep : ∀ member r, σ.store.row member = some r →
      keep σ.store member = some (matched r == positive))
    (hsound : ∀ {υ : Interner} (ρ : Reading R υ.store) member r, Interner.Extends σ υ →
      σ.store.row member = some r → matched r = true →
      sees r ∧ ∀ v ∈ ρ.values member, test v = true)
    (hcomplete : ∀ {υ : Interner} (ρ : Reading R υ.store) member r, Interner.Extends σ υ →
      σ.store.row member = some r → sees r → ∀ v ∈ ρ.values member, test v = true →
      matched r = true) :
    ∃ result, filterUnion structuralHash σ ty keep = some result ∧
      ∀ ρ : Reading R result.2.store,
        (∀ v ∈ ρ.values ty, test v = positive → v ∈ ρ.values result.1) ↔
          (IsTop σ ty ∨ ∀ v ∈ ρ.values ty, test v = positive →
            ∃ member ∈ constituents σ ty, v ∈ ρ.values member ∧
              ∃ r, σ.store.row member = some r ∧ (positive = true → sees r)) := by
  by_cases htop : IsTop σ ty
  · refine ⟨(ty, σ), ?_, fun ρ => ⟨fun _ => .inl htop, fun _ v hv _ => hv⟩⟩
    unfold filterUnion
    exact if_pos htop
  -- the kept members are told by their rows
  have hpick : ∀ member r, σ.store.row member = some r → keep σ.store member
      = some ((σ.store.row member).any (fun r => matched r == positive)) := by
    intro member r hr
    rw [hkeep member r hr, hr]
    rfl
  obtain ⟨result, hresult, hext, hvalues⟩ := filterUnion_spec (R := R) hσ hknown hrow hpick htop
  refine ⟨result, hresult, fun ρ => ?_⟩
  have hty : ∀ v, v ∈ ρ.values ty ↔ ∃ member ∈ constituents σ ty, v ∈ ρ.values member :=
    fun v => (Reading.mem_expand ρ hext ty v).symm
  cases positive with
  | true =>
    constructor
    · intro hkeeps
      right
      intro v hv htest
      obtain ⟨member, hmember, hp, hvm⟩ := (hvalues ρ v).mp (hkeeps v hv htest)
      obtain ⟨r, hr⟩ := row_of_constituent hσ hrow hmember
      rw [hr] at hp
      have hmatched : matched r = true := by simpa using hp
      exact ⟨member, hmember, hvm, r, hr, fun _ => (hsound ρ member r hext hr hmatched).1⟩
    · intro hseen v hv htest
      rcases hseen with hany | hseen
      · exact absurd hany htop
      obtain ⟨member, hmember, hvm, r, hr, hsees⟩ := hseen v hv htest
      apply (hvalues ρ v).mpr
      refine ⟨member, hmember, ?_, hvm⟩
      simp [hr, hcomplete ρ member r hext hr (hsees rfl) v hvm htest]
  | false =>
    -- the branch in which the guard fails sees every member
    have hmember : ∀ v ∈ ρ.values ty, ∃ member ∈ constituents σ ty, v ∈ ρ.values member ∧
        ∃ r, σ.store.row member = some r := by
      intro v hv
      obtain ⟨member, hmember, hvm⟩ := (hty v).mp hv
      exact ⟨member, hmember, hvm, row_of_constituent hσ hrow hmember⟩
    constructor
    · intro _
      right
      intro v hv _
      obtain ⟨member, hmember, hvm, r, hr⟩ := hmember v hv
      exact ⟨member, hmember, hvm, r, hr, fun hpositive => absurd hpositive (by simp)⟩
    intro _ v hv htest
    obtain ⟨member, hmember, hvm, r, hr⟩ := hmember v hv
    apply (hvalues ρ v).mpr
    refine ⟨member, hmember, ?_, hvm⟩
    -- a match would make the test true
    cases hmatched : matched r with
    | false => simp [hr, hmatched]
    | true =>
      have := (hsound ρ member r hext hr hmatched).2 v hvm
      rw [htest] at this
      cases this

end Typeof

end Constituents

end Filter

/-! ## §3 The three guards -/

section Guards

variable {structuralHash : StructuralKey → Nat} {regular : Prop} {σ : Interner} {R : Type}
variable {v : Value R}

/-- A value of a row that shows its values is one of them. -/
theorem plainHolds_of_mem {store : Store} (ρ : Reading R store) {id : TypeId} {r : Row}
    (hr : store.row id = some r) (hshows : Row.ShowsValues r)
    (hv : v ∈ ρ.values id) : r.PlainHolds ρ.values v := by
  cases r
  case intrinsic kind => exact (ρ.intrinsic hr v).mp hv
  case literal value => exact (ρ.literal hr v).mp hv
  case template template => exact ρ.template hr v hv
  all_goals first
    | exact ρ.reference hr trivial v hv
    | cases hshows

/-! ### `typeof` -/

/-- Whether a row matches a `typeof` tag. -/
def Row.matchesTypeof (tag : TypeofTag) : Row → Bool
  | .intrinsic kind => kind == tag.intrinsic
  | .literal value => value.baseKind == tag.intrinsic
  | .template _ => tag.intrinsic == .string
  | _ => false

theorem memberMatchesTypeof_eq {store : Store} {member : TypeId} {r : Row}
    (hr : store.row member = some r) (tag : TypeofTag) :
    memberMatchesTypeof store member tag = some (Row.matchesTypeof tag r) := by
  unfold memberMatchesTypeof
  rw [Store.tag_of_row hr]
  cases r
  case intrinsic kind =>
    simp [Row.tag, Row.matchesTypeof, Store.intrinsicKind_of_row hr]
  case literal value =>
    have hvalue : store.literalValue member = some value :=
      (store.entry_eq_some_iff .literals member value).mpr hr
    simp [Row.tag, Row.matchesTypeof, hvalue]
  all_goals rfl

/-- The tags name the values of their intrinsics. -/
theorem typeof_eq_text {tag : TypeofTag} :
    v.typeof = tag.text ↔ tag.intrinsic.Holds v := by
  cases tag <;> cases v <;>
    simp [Value.typeof, TypeofTag.text, TypeofTag.intrinsic, IntrinsicKind.Holds]

/-- An intrinsic that shows its values has none of another tag. -/
theorem kind_eq_of_holds {tag : TypeofTag} {kind : IntrinsicKind}
    (hshows : Row.ShowsValues (.intrinsic kind)) (htag : tag.intrinsic.Holds v)
    (hkind : kind.Holds v) : kind = tag.intrinsic := by
  obtain ⟨hany, herror, hunknown⟩ := hshows
  cases tag <;> obtain ⟨content, rfl⟩ := htag <;> cases kind <;>
    simp_all [IntrinsicKind.Holds, TypeofTag.intrinsic, Value.NonPrimitive]

theorem holds_of_is {value : LiteralValue} (h : v.Is value) :
    value.baseKind.Holds v := by
  cases value <;> cases v <;>
    simp_all [Value.Is, LiteralValue.baseKind, IntrinsicKind.Holds]

theorem kind_eq_of_is {tag : TypeofTag} {value : LiteralValue} (htag : tag.intrinsic.Holds v)
    (h : v.Is value) : value.baseKind = tag.intrinsic := by
  apply kind_eq_of_holds _ htag (holds_of_is h)
  cases value <;> simp [LiteralValue.baseKind, Row.ShowsValues]

section Filtering

variable {store : Store} (ρ : Reading R store) {id : TypeId} {r : Row} {tag : TypeofTag}
  (hr : store.row id = some r)
include ρ hr

/-- A row that matches has only values of the tag. -/
theorem holds_of_matchesTypeof (hmatched : Row.matchesTypeof tag r = true) :
    Row.ShowsValues r ∧ ∀ v ∈ ρ.values id, tag.intrinsic.Holds v := by
  cases r <;> simp only [Row.matchesTypeof, beq_iff_eq, reduceCtorEq] at hmatched
  case intrinsic kind =>
    subst hmatched
    refine ⟨?_, fun v hv => (ρ.intrinsic hr v).mp hv⟩
    cases tag <;> simp [Row.ShowsValues, TypeofTag.intrinsic]
  case literal value =>
    refine ⟨trivial, fun v hv => ?_⟩
    rw [← hmatched]
    exact holds_of_is ((ρ.literal hr v).mp hv)
  case template template =>
    refine ⟨trivial, fun v hv => ?_⟩
    rw [hmatched]
    exact ρ.template hr v hv

/-- A row that shows a value of the tag matches. -/
theorem matchesTypeof_of_holds (hshows : Row.ShowsValues r) {v : Value R} (hv : v ∈ ρ.values id)
    (htag : tag.intrinsic.Holds v) : Row.matchesTypeof tag r = true := by
  have hplain := plainHolds_of_mem ρ hr hshows hv
  -- no composite is a value of a primitive tag
  have hprimitive : ¬ v.NonPrimitive := by
    cases tag <;> obtain ⟨content, rfl⟩ := htag <;> simp [Value.NonPrimitive]
  cases r
  case intrinsic kind =>
    apply beq_iff_eq.mpr
    exact kind_eq_of_holds hshows htag hplain
  case literal value =>
    apply beq_iff_eq.mpr
    exact kind_eq_of_is htag hplain
  case template template =>
    obtain ⟨text, rfl⟩ := hplain
    cases tag <;> simp_all [Row.matchesTypeof, TypeofTag.intrinsic, IntrinsicKind.Holds]
  all_goals first
    | exact absurd hplain hprimitive
    | cases hshows

end Filtering

/-! ### `null` and `undefined` -/

/-- The intrinsic that a nullish comparison names. -/
def nullishKind (isUndefined : Bool) : IntrinsicKind := if isUndefined then .undefined else .null

theorem nullishTest_iff {isUndefined : Bool} {test : Value R → Bool}
    (htest : (NarrowOp.eqNullish isUndefined).test = some test) :
    test v = true ↔ (nullishKind isUndefined).Holds v := by
  simp only [NarrowOp.test, Option.some.injEq] at htest
  subst htest
  cases isUndefined <;> cases v <;> simp [nullishKind, IntrinsicKind.Holds]

/-- A row that shows a nullish value is the intrinsic of the value. -/
theorem row_eq_of_nullish {store : Store} (ρ : Reading R store) {id : TypeId} {r : Row}
    {isUndefined : Bool} (hr : store.row id = some r) (hshows : Row.ShowsValues r)
    (hvoid : isUndefined = true → r ≠ .intrinsic .void) (hv : v ∈ ρ.values id)
    (hnullish : (nullishKind isUndefined).Holds v) : r = .intrinsic (nullishKind isUndefined) := by
  have hplain := plainHolds_of_mem ρ hr hshows hv
  have hvalue : v = if isUndefined then .undefined else .null := by
    cases isUndefined <;> exact hnullish
  subst hvalue
  cases r
  case intrinsic kind =>
    obtain ⟨hany, herror, hunknown⟩ := hshows
    cases isUndefined <;> cases kind <;>
      simp_all [Row.PlainHolds, IntrinsicKind.Holds, nullishKind, Value.NonPrimitive]
  case literal value =>
    cases isUndefined <;> cases value <;> cases hplain
  case template template =>
    obtain ⟨text, htext⟩ := hplain
    cases isUndefined <;> cases htext
  all_goals first
    | (cases isUndefined <;> cases hplain; done)
    | cases hshows

/-! ### Truthiness -/

theorem isAlwaysTruthy_eq {store : Store} {member : TypeId} {r : Row}
    (hr : store.row member = some r) : ∃ always, isAlwaysTruthy store member = some always ∧
      (always = true ↔ r.IsReference ∧ r.tag ≠ .tuple ∨ r.tag = .object) := by
  unfold isAlwaysTruthy
  rw [Store.tag_of_row hr]
  cases r <;> simp [Row.tag, Row.IsReference]

/-- Which values a truthiness branch loses of a member it drops: the ones that an object row
    has although they are falsy. -/
theorem truthyKeeps_spec (truthy : Bool) (hknown : σ.KnowsIntrinsics) {member : TypeId} {r : Row}
    (hr : σ.store.row member = some r) :
    ∃ keep, truthyKeeps σ truthy member = some keep ∧
      (keep = true → NarrowOp.truthy.Sees truthy r) ∧
      ∀ {υ : Interner} (ρ : Reading R υ.store), Interner.Extends σ υ →
        NarrowOp.truthy.Sees truthy r → ∀ v ∈ ρ.values member, v.truthy = truthy →
          keep = true := by
  -- the default answers: nullish members are falsy, references and objects are truthy
  have hdefault : ∃ keep, (if truthy then
        some (decide (member ≠ σ.wellKnown.null ∧ member ≠ σ.wellKnown.undefined))
      else (isAlwaysTruthy σ.store member).map (fun always => !always)) = some keep ∧
      (keep = true → NarrowOp.truthy.Sees truthy r) ∧
      ∀ {υ : Interner} (ρ : Reading R υ.store), Interner.Extends σ υ →
        NarrowOp.truthy.Sees truthy r → ∀ v ∈ ρ.values member, v.truthy = truthy →
          keep = true := by
    cases truthy with
    | true =>
      refine ⟨_, rfl, fun _ => .inl rfl, ?_⟩
      intro υ ρ hext _ v hv htruthy
      apply decide_eq_true
      constructor
      · intro heq
        have hnull : v = .null := by
          rw [heq] at hv
          exact (ρ.intrinsic (hext.row (hknown.row .null)) v).mp hv
        rw [hnull] at htruthy
        cases htruthy
      · intro heq
        have hundefined : v = .undefined := by
          rw [heq] at hv
          exact (ρ.intrinsic (hext.row (hknown.row .undefined)) v).mp hv
        rw [hundefined] at htruthy
        cases htruthy
    | false =>
      obtain ⟨always, halways, htruthyRow⟩ := isAlwaysTruthy_eq hr
      refine ⟨!always, by simp [halways], ?_, ?_⟩
      · intro hkeep
        right
        intro hobject
        rw [htruthyRow.mpr (.inr hobject)] at hkeep
        cases hkeep
      · intro υ ρ hext hsees v hv htruthy
        have hobject : r.tag ≠ .object := by simpa [NarrowOp.Sees] using hsees
        cases always with
        | false => rfl
        | true =>
          rcases htruthyRow.mp rfl with ⟨hreference, -⟩ | hrow
          · -- a reference is never falsy
            have := (ρ.reference (hext.row hr) hreference v hv).truthy
            rw [htruthy] at this
            cases this
          · exact absurd hrow hobject
  unfold truthyKeeps
  cases hliteral : σ.store.literalValue member with
  | none => exact hdefault
  | some value =>
    cases value with
    | boolean value =>
      have hrow : σ.store.row member = some (.literal (.boolean value)) :=
        (σ.store.entry_eq_some_iff .literals member (.boolean value)).mp hliteral
      refine ⟨value == truthy, rfl, ?_, ?_⟩
      · intro _
        rw [hrow] at hr
        cases hr
        exact .inr (by simp [Row.tag])
      · intro υ ρ hext _ v hv htruthy
        have hvalue := Value.is_boolean.mp ((ρ.literal (hext.row hrow) v).mp hv)
        rw [hvalue] at htruthy
        exact beq_iff_eq.mpr htruthy
    | _ => exact hdefault

/-- What is left of a member in a truthiness branch has the values of the member that take the
    branch, if the branch sees the row of the member, and no value of it otherwise. -/
theorem truthyPart_spec (hknown : σ.KnowsIntrinsics) {booleanBranch : TypeId} {truthy : Bool}
    {member : TypeId} {r : Row} (hr : σ.store.row member = some r)
    (hbranch : σ.store.row booleanBranch = some (.literal (.boolean truthy))) :
    ∃ part, truthyPart σ booleanBranch truthy member = some part ∧
      (∀ id ∈ part.toList, ∃ r, σ.store.row id = some r) ∧
      ∀ {υ : Interner} (ρ : Reading R υ.store), Interner.Extends σ υ → ∀ v, v.truthy = truthy →
        ((∃ id ∈ part.toList, v ∈ ρ.values id) ↔
          v ∈ ρ.values member ∧ NarrowOp.truthy.Sees truthy r) := by
  unfold truthyPart
  by_cases hboolean : member = σ.wellKnown.boolean
  · have hrow : r = .intrinsic .boolean := by
      have hknownRow : σ.store.row σ.wellKnown.boolean = some (.intrinsic .boolean) :=
        hknown.row .boolean
      rw [hboolean, hknownRow] at hr
      exact (Option.some.inj hr).symm
    refine ⟨some booleanBranch, if_pos hboolean, ?_, ?_⟩
    · intro id hid
      have heq : id = booleanBranch := by simpa using hid
      exact ⟨_, heq ▸ hbranch⟩
    · intro υ ρ hext v htruthy
      have hbranchValues := ρ.literal (hext.row hbranch) v
      have hvalues := ρ.intrinsic (hext.row (hrow ▸ hr)) v
      constructor
      · rintro ⟨id, hid, hv⟩
        have heq : id = booleanBranch := by simpa using hid
        rw [heq, hbranchValues, Value.is_boolean] at hv
        exact ⟨hvalues.mpr ⟨truthy, hv⟩, .inr (by simp [hrow, Row.tag])⟩
      · rintro ⟨hv, _⟩
        obtain ⟨b, rfl⟩ := hvalues.mp hv
        refine ⟨booleanBranch, by simp, hbranchValues.mpr ?_⟩
        exact Value.is_boolean.mpr (congrArg Value.boolean htruthy)
  · obtain ⟨keep, hkeep, hsees, hkept⟩ := truthyKeeps_spec (R := R) truthy hknown hr
    refine ⟨if keep then some member else none, ?_, ?_, ?_⟩
    · simp [if_neg hboolean, hkeep]
    · intro id hid
      cases keep <;> simp at hid
      exact ⟨r, hid ▸ hr⟩
    · intro υ ρ hext v htruthy
      constructor
      · rintro ⟨id, hid, hv⟩
        cases keep <;> simp at hid
        exact ⟨hid ▸ hv, hsees rfl⟩
      · rintro ⟨hv, hrow⟩
        rw [hkept ρ hext hrow v hv htruthy]
        exact ⟨member, by simp, hv⟩

theorem truthyParts_spec (hknown : σ.KnowsIntrinsics) {booleanBranch : TypeId} {truthy : Bool}
    (hbranch : σ.store.row booleanBranch = some (.literal (.boolean truthy)))
    {members : List TypeId} (hrows : ∀ member ∈ members, ∃ r, σ.store.row member = some r) :
    ∃ parts, truthyParts σ booleanBranch truthy members = some parts ∧
      (∀ id ∈ parts, ∃ r, σ.store.row id = some r) ∧
      ∀ {υ : Interner} (ρ : Reading R υ.store), Interner.Extends σ υ → ∀ v, v.truthy = truthy →
        ((∃ id ∈ parts, v ∈ ρ.values id) ↔ ∃ member ∈ members, v ∈ ρ.values member ∧
          ∃ r, σ.store.row member = some r ∧ NarrowOp.truthy.Sees truthy r) := by
  induction members with
  | nil => exact ⟨[], rfl, by simp, by simp⟩
  | cons first rest ih =>
    obtain ⟨r, hr⟩ := hrows first mem_cons_self
    obtain ⟨part, hpart, hpartRows, hpartValues⟩ := truthyPart_spec (R := R) hknown hr hbranch
    obtain ⟨parts, hparts, hpartsRows, hpartsValues⟩ :=
      ih (fun member hmember => hrows member (mem_cons_of_mem _ hmember))
    refine ⟨part.toList ++ parts, by simp [truthyParts, hpart, hparts], ?_, ?_⟩
    · intro id hid
      rcases mem_append.mp hid with hid | hid
      · exact hpartRows id hid
      · exact hpartsRows id hid
    · intro υ ρ hext v htruthy
      have hfirst : (∃ r, σ.store.row first = some r ∧ NarrowOp.truthy.Sees truthy r) ↔
          NarrowOp.truthy.Sees truthy r := by simp [hr]
      simp only [mem_append, or_and_right, exists_or, hpartValues ρ hext v htruthy,
        hpartsValues ρ hext v htruthy, exists_mem_cons_iff, hfirst]

/-- Interning a boolean literal finds or makes its row. -/
theorem row_internLiteral_boolean (hσ : σ.Consed structuralHash False) (b : Bool) :
    (σ.internLiteral structuralHash (.boolean b)).2.store.row
      (σ.internLiteral structuralHash (.boolean b)).1 = some (.literal (.boolean b)) ∧
    Interner.Extends σ (σ.internLiteral structuralHash (.boolean b)).2 ∧
    (σ.internLiteral structuralHash (.boolean b)).2.Consed structuralHash False := by
  have hspec : Interner.InternSpec structuralHash False σ (.literal (.boolean b))
      (σ.internLiteral structuralHash (.boolean b)) :=
    internSpec_internLiteral hσ False.elim
  refine ⟨?_, ?_, hσ.steps hspec.steps⟩
  · unfold internLiteral internWith
    dsimp only
    split
    · -- a boolean is found by its value
      rename_i existing hlookup
      obtain ⟨r, hr, heq⟩ := hσ.lookup_eq_some hlookup
      obtain ⟨value, hvalue, heq⟩ := (Option.any_eq_true _ _).mp heq
      have hboolean : value = .boolean b := by
        cases value <;> simp [LiteralValue.eq] at heq
        rw [heq]
      rw [hboolean] at hvalue
      exact (σ.store.entry_eq_some_iff .literals existing _).mp hvalue
    · exact (Store.appended_pushEntry (t := .literals) hσ.wellFormed).row_new
  · rcases hspec with ⟨heq, _⟩ | ⟨r, _, _, hr⟩
    · rw [heq]
      exact Interner.Extends.refl σ
    · exact hr.extends hσ

/-- **When a truthiness branch keeps every value.** -/
theorem narrowByTruthiness_keeps_iff (hσ : σ.Consed structuralHash False)
    (hknown : σ.KnowsIntrinsics) {ty : TypeId} {row : Row} (hrow : σ.store.row ty = some row)
    (truthy : Bool) :
    ∃ result, narrowByTruthiness structuralHash σ ty truthy = some result ∧
      ∀ ρ : Reading R result.2.store,
        (∀ v ∈ ρ.values ty, v.truthy = truthy → v ∈ ρ.values result.1) ↔
          (IsTop σ ty ∨ ∀ v ∈ ρ.values ty, v.truthy = truthy →
            ∃ member ∈ constituents σ ty, v ∈ ρ.values member ∧
              ∃ r, σ.store.row member = some r ∧ NarrowOp.truthy.Sees truthy r) := by
  unfold narrowByTruthiness
  dsimp only
  by_cases htop : ty = σ.wellKnown.any ∨ ty = σ.wellKnown.error
  · exact ⟨(ty, σ), if_pos htop, fun ρ => ⟨fun _ => .inl htop, fun _ v hv _ => hv⟩⟩
  rw [if_neg htop]
  obtain ⟨hbranch, hext, hconsed⟩ := row_internLiteral_boolean hσ truthy
  generalize σ.internLiteral structuralHash (.boolean truthy) = made at hbranch hext hconsed ⊢
  obtain ⟨booleanBranch, τ⟩ := made
  dsimp only at hbranch hext hconsed ⊢
  -- the literal of the branch leaves the members and their rows as they were
  have hsame : constituents τ ty = constituents σ ty := by
    unfold constituents expand
    rw [show τ.store.unionMembers ty = σ.store.unionMembers ty from hext.entry_eq hrow .unions]
  have hrows : ∀ member ∈ constituents τ ty, ∃ r, τ.store.row member = some r :=
    fun member hmember => row_of_constituent hconsed (hext.row hrow) hmember
  obtain ⟨parts, hparts, hpartRows, hvalues⟩ :=
    truthyParts_spec (R := R) (hknown.mono hext) hbranch hrows
  obtain ⟨flat, result, hresult, _⟩ := union_spec hconsed hpartRows
  have hext' := (extends_union hconsed hresult).1
  refine ⟨result, ?_, fun ρ => ?_⟩
  · have hmembers : (τ.store.unionMembers ty).getD [ty] = constituents τ ty := rfl
    rw [hmembers, hparts]
    exact hresult
  have hleft : ∀ v, v.truthy = truthy → (v ∈ ρ.values result.1 ↔
      ∃ member ∈ constituents σ ty, v ∈ ρ.values member ∧
        ∃ r, σ.store.row member = some r ∧ NarrowOp.truthy.Sees truthy r) := by
    intro v htruthy
    rw [Reading.mem_union hconsed (hknown.mono hext) hpartRows hresult ρ v,
      hvalues ρ hext' v htruthy, hsame]
    refine exists_congr (fun member => and_congr_right (fun hmember => ?_))
    obtain ⟨r, hr⟩ := row_of_constituent hσ hrow hmember
    rw [hext.row_eq hr]
  constructor
  · intro hkeeps
    right
    intro v hv htruthy
    exact (hleft v htruthy).mp (hkeeps v hv htruthy)
  · intro hseen v hv htruthy
    rcases hseen with hany | hseen
    · exact absurd hany htop
    exact (hleft v htruthy).mpr (hseen v hv htruthy)

end Guards

/-! ## §4 What a branch keeps -/

section Branches

variable {structuralHash : StructuralKey → Nat} {σ : Interner} {R : Type}

/-- **When a branch keeps every value that takes it.**  The branch in which `typeof` or a
    comparison holds loses the values that `ty` has through members alone that do not show
    them: top types, type parameters, intersections, objects and deferred rows, and `void`
    for the comparison with `undefined`.  The falsy branch loses those it has through
    objects alone. -/
theorem narrow_keeps_iff (hσ : σ.Reachable structuralHash) {ty : TypeId} {row : Row}
    (hrow : σ.store.row ty = some row) {op : NarrowOp} {test : Value R → Bool}
    (htest : op.test = some test) (positive : Bool) :
    ∃ result, narrow structuralHash σ ty op positive = some result ∧
      ∀ ρ : Reading R result.2.store,
        (∀ v ∈ ρ.values ty, test v = positive → v ∈ ρ.values result.1) ↔
          (IsTop σ ty ∨ ∀ v ∈ ρ.values ty, test v = positive →
            ∃ member ∈ constituents σ ty, v ∈ ρ.values member ∧
              ∃ r, σ.store.row member = some r ∧ op.Sees positive r) := by
  have hconsed : σ.Consed structuralHash False := hσ.consed
  have hknown := hσ.knowsIntrinsics
  cases op with
  | typeof tag =>
    have hholds : ∀ v : Value R, test v = true ↔ tag.intrinsic.Holds v := by
      intro v
      simp only [NarrowOp.test, Option.some.injEq] at htest
      subst htest
      rw [beq_iff_eq]
      exact typeof_eq_text
    simp only [narrow, narrowByTypeof]
    refine filterUnion_keeps_iff hconsed hknown hrow test Row.ShowsValues
      (Row.matchesTypeof tag) positive ?_ ?_ ?_
    · intro member r hr
      simp [memberMatchesTypeof_eq hr tag]
    · intro υ ρ member r hext hr hmatched
      obtain ⟨hshows, hvalues⟩ := holds_of_matchesTypeof ρ (hext.row hr) hmatched
      exact ⟨hshows, fun v hv => (hholds v).mpr (hvalues v hv)⟩
    · intro υ ρ member r hext hr hsees v hv hv'
      exact matchesTypeof_of_holds ρ (hext.row hr) hsees hv ((hholds v).mp hv')
  | truthy =>
    simp only [NarrowOp.test, Option.some.injEq] at htest
    subst htest
    exact narrowByTruthiness_keeps_iff hconsed hknown hrow positive
  | eqNullish isUndefined =>
    have hholds : ∀ v : Value R, test v = true ↔ (nullishKind isUndefined).Holds v :=
      fun v => nullishTest_iff htest
    -- the target is told by its row
    have htarget : ∀ member r, σ.store.row member = some r →
        decide (member = if isUndefined then σ.wellKnown.undefined else σ.wellKnown.null)
          = decide (r = .intrinsic (nullishKind isUndefined)) := by
      intro member r hr
      have hid : (if isUndefined then σ.wellKnown.undefined else σ.wellKnown.null)
          = σ.wellKnown.id (nullishKind isUndefined) := by
        cases isUndefined <;> rfl
      rw [hid]
      apply decide_eq_decide.mpr
      constructor
      · intro heq
        rw [heq, hknown.row, Option.some.injEq] at hr
        exact hr.symm
      · intro heq
        rw [heq] at hr
        exact hknown.eq_id hconsed hr
    simp only [narrow, narrowByNullishEquality]
    refine filterUnion_keeps_iff hconsed hknown hrow test
      (fun r => Row.ShowsValues r ∧ (isUndefined = true → r ≠ .intrinsic .void))
      (fun r => decide (r = .intrinsic (nullishKind isUndefined))) positive ?_ ?_ ?_
    · intro member r hr
      rw [htarget member r hr]
    · intro υ ρ member r hext hr hmatched
      have hrow' := of_decide_eq_true hmatched
      subst hrow'
      refine ⟨?_, fun v hv => (hholds v).mpr ((ρ.intrinsic (hext.row hr) v).mp hv)⟩
      cases isUndefined <;> simp [Row.ShowsValues, nullishKind]
    · intro υ ρ member r hext hr hsees v hv hv'
      apply decide_eq_true
      exact row_eq_of_nullish ρ (hext.row hr) hsees.1 hsees.2 hv ((hholds v).mp hv')
  | discriminant property literal => cases htest
  | «in» property => cases htest

/-- A `typeof` branch of `unknown` is empty. -/
theorem narrow_unknown_typeof (hknown : σ.KnowsIntrinsics) (tag : TypeofTag) :
    narrow structuralHash σ σ.wellKnown.unknown (.typeof tag) true
      = some (σ.wellKnown.never, σ) := by
  have hunknown : σ.store.row σ.wellKnown.unknown = some (.intrinsic .unknown) :=
    hknown.row .unknown
  have hne : ∀ kind, kind ≠ .unknown → σ.wellKnown.unknown ≠ σ.wellKnown.id kind := by
    intro kind hkind heq
    rw [heq, hknown.row kind] at hunknown
    cases hunknown
    exact hkind rfl
  have htop : ¬ (σ.wellKnown.unknown = σ.wellKnown.any ∨ σ.wellKnown.unknown = σ.wellKnown.error) := by
    intro heq
    rcases heq with heq | heq
    · exact hne .any (by simp) heq
    · exact hne .error (by simp) heq
  have hmembers : σ.store.unionMembers σ.wellKnown.unknown = none := by
    rw [Option.eq_none_iff_forall_ne_some]
    intro members hmembers
    have hrow := (σ.store.entry_eq_some_iff .unions _ members).mp hmembers
    rw [hunknown] at hrow
    cases hrow
  have hmatched : Row.matchesTypeof tag (.intrinsic .unknown) = false := by
    cases tag <;> rfl
  unfold narrow narrowByTypeof filterUnion
  simp only [if_neg htop, hmembers, memberMatchesTypeof_eq hunknown tag, hmatched]
  rfl

end Branches

/-- The structural hash of the example runs. -/
def oneBucket : StructuralKey → Nat := fun _ => 0

theorem reachable_withIntrinsics : (withIntrinsics oneBucket).Reachable oneBucket :=
  ⟨0, [], [], rfl⟩

/-- A string that is a value of `unknown` is no value of its `typeof` branch. -/
theorem narrow_unknown_drops_string :
    ∃ σ result, σ.Reachable oneBucket ∧
      narrow oneBucket σ σ.wellKnown.unknown (.typeof .string) true = some result ∧
      Nonempty (Reading Unit result.2.store) ∧ ∀ ρ : Reading Unit result.2.store,
        .string "a" ∈ ρ.values σ.wellKnown.unknown ∧
          (Value.string "a" : Value Unit).typeof = TypeofTag.string.text ∧
            .string "a" ∉ ρ.values result.1 := by
  have hreachable := reachable_withIntrinsics
  have hknown := hreachable.knowsIntrinsics
  refine ⟨_, _, hreachable, narrow_unknown_typeof hknown .string, hreachable.exists_reading, ?_⟩
  intro ρ
  refine ⟨(ρ.intrinsic (hknown.row .unknown) _).mpr trivial, rfl, ?_⟩
  intro hv
  exact (ρ.intrinsic (hknown.row .never) _).mp hv

/-- The rows of `x: {} | T | null` with `T extends string`. -/
def GuardRows (store : Store) : Prop :=
  store.row 5 = some (.intrinsic .null) ∧ store.row 9 = some (.intrinsic .string) ∧
    store.row 19 = some (.object {}) ∧ store.row 20 = some (.typeParam ⟨0, "T"⟩) ∧
    store.row 21 = some (.union [5, 19, 20]) ∧ store.typeParamConstraint 0 = some 9

instance (store : Store) : Decidable (GuardRows store) := by
  unfold GuardRows
  infer_instance

/-- The falsy branch loses 0, which only `{}` has; the truthy branch loses nothing. -/
theorem narrow_keeps_iff_empty_object :
    ∃ σ falsy truthy, σ.Reachable oneBucket ∧ GuardRows σ.store ∧
      narrow oneBucket σ 21 .truthy false = some falsy ∧
      narrow oneBucket σ 21 .truthy true = some truthy ∧
      (∀ ρ : Reading Unit falsy.2.store,
        ¬ ∀ v ∈ ρ.values 21, v.truthy = false → v ∈ ρ.values falsy.1) ∧
      ∀ ρ : Reading Unit truthy.2.store,
        ∀ v ∈ ρ.values 21, v.truthy = true → v ∈ ρ.values truthy.1 := by
  have htest : NarrowOp.truthy.test = some (Value.truthy : Value Unit → Bool) := rfl
  -- the rows stay as they are in both branches
  obtain ⟨reached, hrun, hrows, htop, hfalsyRows, htruthyRows⟩ := exists_of_run
    (r := runHistory oneBucket 0 [.internObject {}, .internTypeParam 0 "T",
      .setTypeParamConstraint 0 9, .union [19, 20, 5]] (withIntrinsics oneBucket))
    (P := fun reached => GuardRows reached.2.store ∧
      ¬ (21 = reached.2.wellKnown.any ∨ 21 = reached.2.wellKnown.error) ∧
      (narrow oneBucket reached.2 21 .truthy false).all
        (fun falsy => decide (GuardRows falsy.2.store)) = true ∧
      (narrow oneBucket reached.2 21 .truthy true).all
        (fun truthy => decide (GuardRows truthy.2.store)) = true) (by decide +kernel)
  have hreachable : reached.2.Reachable oneBucket := ⟨0, _, reached.1, hrun⟩
  obtain ⟨hnull, hstring, hempty, hparam, hunion, -⟩ := id hrows
  have hparts : constituents reached.2 21 = [5, 19, 20] :=
    expand_of_some ((reached.2.store.entry_eq_some_iff .unions 21 [5, 19, 20]).mpr hunion)
  obtain ⟨falsy, hfalsy, hfalsyIff⟩ := narrow_keeps_iff hreachable hunion htest false
  obtain ⟨truthy, htruthy, htruthyIff⟩ := narrow_keeps_iff hreachable hunion htest true
  rw [hfalsy] at hfalsyRows
  rw [htruthy] at htruthyRows
  obtain ⟨hnull', hstring', hempty', hparam', hunion', hconstraint'⟩ :=
    of_decide_eq_true hfalsyRows
  obtain ⟨-, -, -, -, hunion'', -⟩ := of_decide_eq_true htruthyRows
  refine ⟨reached.2, falsy, truthy, hreachable, hrows, hfalsy, htruthy, ?_, ?_⟩
  · intro ρ hkeeps
    have hmem : Value.number ⟨0⟩ ∈ ρ.values 21 :=
      (ρ.union hunion' _).mpr ⟨19, by simp, (ρ.emptyObject hempty' _).mpr trivial⟩
    rcases (hfalsyIff ρ).mp hkeeps with hany | hseen
    · exact htop hany
    obtain ⟨member, hmember, hv, r, hr, hsees⟩ := hseen _ hmem (by decide)
    rw [hparts] at hmember
    -- neither `null` nor a string is 0, and the falsy branch does not see the object
    rcases (by simpa using hmember : member = 5 ∨ member = 19 ∨ member = 20) with
      rfl | rfl | rfl
    · cases (ρ.intrinsic hnull' _).mp hv
    · rw [hempty] at hr
      cases hr
      simp [NarrowOp.Sees, Row.tag] at hsees
    · obtain ⟨text, htext⟩ :=
        (ρ.intrinsic hstring' _).mp (ρ.typeParam hparam' hconstraint' hv)
      cases htext
  · intro ρ
    apply (htruthyIff ρ).mpr
    right
    intro v hv _
    obtain ⟨member, hmember, hvm⟩ := (ρ.union hunion'' v).mp hv
    rw [hparts]
    refine ⟨member, hmember, hvm, ?_⟩
    rcases (by simpa using hmember : member = 5 ∨ member = 19 ∨ member = 20) with
      rfl | rfl | rfl
    · exact ⟨_, hnull, .inl rfl⟩
    · exact ⟨_, hempty, .inl rfl⟩
    · exact ⟨_, hparam, .inl rfl⟩

end Typokat.Check
