import Typokat.Types.Reach

/-!
# What a Union Computes (`typokat-types/src/types/intern/composites.rs`)

The flattening loop ends on a hash-consed interner, and what it leaves are the members
themselves with every nested union replaced by its own members.  The row behind a union
that does not collapse is the canonical list of these.

The intrinsics that a fresh interner starts with keep their rows, and no other id ever
denotes one of them.

## Main Results

- `Interner.union_spec` : a union is found or built, and over which members
- `Interner.KnowsIntrinsics` : the well-known ids denote the intrinsics
- `Interner.Reachable.knowsIntrinsics` : in every reachable interner
- `Interner.Reachable.setsOrdered` : set types are made of earlier types
-/

namespace Typokat.Types

open List

variable {structuralHash : StructuralKey → Nat} {regular : Prop}

namespace Interner

/-! ## §1 Flattening -/

/-- A member, or the members of the nested row that it denotes. -/
def expand (nested : TypeId → Option (List TypeId)) (member : TypeId) : List TypeId :=
  (nested member).getD [member]

theorem expand_of_some {nested : TypeId → Option (List TypeId)} {member : TypeId}
    {inner : List TypeId} (h : nested member = some inner) : expand nested member = inner := by
  simp [expand, h]

theorem expand_of_none {nested : TypeId → Option (List TypeId)} {member : TypeId}
    (h : nested member = none) : expand nested member = [member] := by
  simp [expand, h]

/-- A member that the loop gets through: it has a row, and a nested row has members that
    are not nested themselves. -/
def Expands (store : Store) (nested : TypeId → Option (List TypeId)) (member : TypeId) : Prop :=
  (∃ tag, store.tag member = some tag) ∧ ∀ inner, nested member = some inner →
    ∀ other ∈ inner, nested other = none ∧ ∃ tag, store.tag other = some tag

theorem flattenFuel_append (nested : TypeId → Option (List TypeId)) (xs ys : List TypeId) :
    flattenFuel nested (xs ++ ys) = flattenFuel nested xs + flattenFuel nested ys := by
  simp [flattenFuel]

/-- Members without a nested row take one step each. -/
theorem flattenFuel_of_none {nested : TypeId → Option (List TypeId)} {members : List TypeId}
    (h : ∀ member ∈ members, nested member = none) :
    flattenFuel nested members = members.length := by
  induction members with
  | nil => rfl
  | cons member rest ih =>
    have hrest := ih (fun other hother => h other (mem_cons_of_mem _ hother))
    unfold flattenFuel at hrest ⊢
    simp [h member mem_cons_self, hrest]
    omega

/-- **The loop ends, and leaves the expanded members.** -/
theorem flatten_spec {store : Store} {nested : TypeId → Option (List TypeId)} {fuel : Nat}
    {members : List TypeId} (flat : List TypeId)
    (hmembers : ∀ member ∈ members, Expands store nested member)
    (hfuel : flattenFuel nested members ≤ fuel) :
    ∃ result, flatten store nested fuel members flat = some result ∧
      ∀ id, id ∈ result ↔ id ∈ flat ∨ id ∈ members.flatMap (expand nested) := by
  induction fuel generalizing members flat with
  | zero =>
    -- a remaining member would need a step
    have hnil : members = [] := by
      cases members with
      | nil => rfl
      | cons member rest =>
        simp [flattenFuel] at hfuel
    subst hnil
    refine ⟨flat, ?_, by simp⟩
    unfold flatten
    simp
  | succ fuel ih =>
    rcases eq_nil_or_concat members with rfl | ⟨front, member, rfl⟩
    · refine ⟨flat, ?_, by simp⟩
      unfold flatten
      simp
    · rw [concat_eq_append] at hmembers hfuel ⊢
      rw [flattenFuel_append] at hfuel
      obtain ⟨⟨tag, htag⟩, hinner⟩ := hmembers member (by simp)
      have hfront : ∀ other ∈ front, Expands store nested other := by
        intro other hother
        apply hmembers
        simp [hother]
      cases hnested : nested member with
      | some inner =>
        -- the nested row is put on the stack in the place of the member
        have hflatInner : ∀ other ∈ inner, nested other = none :=
          fun other hother => (hinner inner hnested other hother).1
        have hcost : flattenFuel nested (front ++ inner) ≤ fuel := by
          rw [flattenFuel_append, flattenFuel_of_none hflatInner]
          simp [flattenFuel, hnested] at hfuel ⊢
          omega
        obtain ⟨result, hresult, hmem⟩ := ih flat (fun other hother => by
          rcases mem_append.mp hother with hother | hother
          · exact hfront other hother
          · refine ⟨(hinner inner hnested other hother).2, ?_⟩
            intro nestedInner hsome
            rw [hflatInner other hother] at hsome
            cases hsome) hcost
        refine ⟨result, ?_, ?_⟩
        · unfold flatten
          simpa [htag, hnested] using hresult
        · intro id
          rw [hmem]
          have hself : inner.flatMap (expand nested) = inner := by
            rw [flatMap_congr (fun other hother => expand_of_none (hflatInner other hother))]
            simp
          simp [expand_of_some hnested, hself]
      | none =>
        have hcost : flattenFuel nested front ≤ fuel := by
          simp [flattenFuel, hnested] at hfuel ⊢
          omega
        obtain ⟨result, hresult, hmem⟩ := ih (flat ++ [member]) hfront hcost
        refine ⟨result, ?_, ?_⟩
        · unfold flatten
          simpa [htag, hnested] using hresult
        · intro id
          rw [hmem]
          simp only [mem_append, flatMap_append, flatMap_singleton, expand_of_none hnested]
          tauto

/-! ## §2 The row behind a union -/

section Consed

variable {σ τ : Interner}

theorem expands_of_row (hσ : σ.Consed structuralHash regular) {member : TypeId} {r : Row}
    (hr : σ.store.row member = some r) : Expands σ.store σ.store.unionMembers member := by
  refine ⟨⟨r.tag, Store.tag_of_row hr⟩, ?_⟩
  intro inner hinner other hother
  have hrow := (σ.store.entry_eq_some_iff .unions member inner).mp hinner
  -- the stored members are flat
  obtain ⟨tag, htag, hne⟩ := (hσ.canonical member _ hrow).flat other hother
  refine ⟨?_, tag, htag⟩
  have hno : ¬ σ.store.tag other = some SideTable.unions.tag := by
    rw [htag]
    intro heq
    exact hne (Option.some.inj heq)
  exact if_neg hno

/-- What a constructor returns denotes a row with the key, unless literals are compared as
    numbers. -/
theorem InternSpec.structural {key : StructuralKey} {result : TypeId × Interner}
    (hσ : σ.Consed structuralHash regular)
    (h : InternSpec structuralHash regular σ key result) (hexact : key.tag.Exact regular) :
    ∃ r, result.2.Structural result.1 r ∧ r.key = key := by
  rcases h with ⟨heq, r, hr, hkey⟩ | ⟨r, hkey, hid, hr⟩
  · rw [heq]
    exact ⟨r, hr, hkey hexact⟩
  · refine ⟨r, ?_, hkey⟩
    exact (hr.structural_iff hσ _ _).mpr (.inl ⟨hid, rfl⟩)

theorem row_internUnion (hσ : σ.Consed structuralHash regular) {members : List TypeId}
    (hmembers : σ.store.SetMembers .union members) :
    (σ.internUnion structuralHash members).2.store.row (σ.internUnion structuralHash members).1
      = some (.union members) := by
  have hspec := internSpec_internUnion hσ hmembers
  obtain ⟨r, hr, hkey⟩ := hspec.structural hσ (TypeTag.exact_of_ne (by simp [StructuralKey.tag]))
  have hkey' : r.key = (Row.union members).key := hkey
  have htag : r.tag = .union := by
    rw [← Row.tag_key, hkey]
    rfl
  rw [Row.eq_of_key_eq hkey' (by rw [htag]; decide)] at hr
  exact hr.1

/-- The three ways in which the flat members of a union make its id. -/
inductive UnionResult (σ : Interner) (flat : List TypeId) : TypeId × Interner → Prop
  /-- a top-like member absorbs the others -/
  | any : (σ.wellKnown.any ∈ flat ∨ σ.wellKnown.error ∈ flat) →
      UnionResult σ flat (σ.wellKnown.any, σ)
  | unknown : σ.wellKnown.unknown ∈ flat → UnionResult σ flat (σ.wellKnown.unknown, σ)
  /-- nothing but `never` is united -/
  | never : (∀ id ∈ flat, id = σ.wellKnown.never) → UnionResult σ flat (σ.wellKnown.never, σ)
  /-- one member is left -/
  | single (id : TypeId) : id ∈ flat → (∀ other ∈ flat, other = id ∨ other = σ.wellKnown.never) →
      UnionResult σ flat (id, σ)
  /-- a union row over the members other than `never` -/
  | row (members : List TypeId) (result : TypeId × Interner) :
      (∀ id, id ∈ members ↔ id ∈ flat ∧ id ≠ σ.wellKnown.never) →
      result.2.store.row result.1 = some (.union members) → UnionResult σ flat result

theorem mem_sortDedup {ids : List TypeId} {id : TypeId} : id ∈ sortDedup ids ↔ id ∈ ids := by
  simp [sortDedup]

theorem unionResult_unionOfFlat (structuralHash : StructuralKey → Nat)
    (hσ : σ.Consed structuralHash regular) {flat : List TypeId}
    (hflat : ∀ member ∈ flat, σ.store.FlatMember .union member) :
    UnionResult σ flat (σ.unionOfFlat structuralHash flat) := by
  have hmem : ∀ id, id ∈ sortDedup (flat.filter (fun m => m != σ.wellKnown.never)) ↔
      id ∈ flat ∧ id ≠ σ.wellKnown.never := by
    intro id
    rw [mem_sortDedup, mem_filter, bne_iff_ne]
  unfold unionOfFlat
  dsimp only
  split
  · rename_i htop
    apply UnionResult.any
    obtain ⟨id, hid, htop⟩ := any_eq_true.mp htop
    rw [Bool.or_eq_true, beq_iff_eq, beq_iff_eq] at htop
    rcases htop with rfl | rfl
    · exact .inl hid
    · exact .inr hid
  · split
    · rename_i hunknown
      apply UnionResult.unknown
      exact contains_iff_mem.mp hunknown
    · split
      · rename_i hnil
        apply UnionResult.never
        intro id hid
        by_contra hne
        have := (hmem id).mpr ⟨hid, hne⟩
        rw [hnil] at this
        cases this
      · rename_i single hsingle
        have hone := (hmem single).mp (by simp [hsingle])
        refine UnionResult.single single hone.1 ?_
        intro other hother
        by_cases hnever : other = σ.wellKnown.never
        · exact .inr hnever
        · have := (hmem other).mpr ⟨hother, hnever⟩
          rw [hsingle] at this
          exact .inl (mem_singleton.mp this)
      · rename_i hnil hsingle
        refine UnionResult.row _ _ hmem ?_
        exact row_internUnion hσ (setMembers_sortDedup hflat hnil hsingle)

/-- **A union of types of the store is found or built**, over the members with the nested
    unions expanded. -/
theorem union_spec (hσ : σ.Consed structuralHash regular) {members : List TypeId}
    (hrows : ∀ member ∈ members, ∃ r, σ.store.row member = some r) :
    ∃ flat result, σ.union structuralHash members = some result ∧
      (∀ id, id ∈ flat ↔ id ∈ members.flatMap (expand σ.store.unionMembers)) ∧
      UnionResult σ flat result := by
  have hexpands : ∀ member ∈ members, Expands σ.store σ.store.unionMembers member := by
    intro member hmember
    obtain ⟨r, hr⟩ := hrows member hmember
    exact expands_of_row hσ hr
  obtain ⟨flat, hflatten, hmem⟩ := flatten_spec [] hexpands le_rfl
  have hflat : ∀ member ∈ flat, σ.store.FlatMember .union member :=
    flatMember_of_flattenMembers hσ.wellFormed .unions (fun _ hnone => hnone) hflatten
  refine ⟨flat, σ.unionOfFlat structuralHash flat, ?_, ?_, unionResult_unionOfFlat _ hσ hflat⟩
  · unfold union flattenMembers
    rw [hflatten]
    rfl
  · intro id
    rw [hmem]
    simp

/-- A union only adds rows. -/
theorem extends_union (hσ : σ.Consed structuralHash regular) {members : List TypeId}
    {result : TypeId × Interner} (h : σ.union structuralHash members = some result) :
    Extends σ result.2 ∧ result.2.Consed structuralHash regular := by
  have hgrows := Grows.of_interning (interning_union members) hσ h
  exact ⟨hgrows.grown, hσ.steps (steps_union hσ h)⟩

end Consed

end Interner

/-! ## §3 The intrinsics -/

theorem Store.intrinsicKind_of_row {store : Store} {id : TypeId} {kind : IntrinsicKind}
    (hr : store.row id = some (.intrinsic kind)) : store.intrinsicKind id = some kind := by
  have h := (Store.decides_intrinsic (s := store) kind id).mpr ⟨_, hr, rfl⟩
  exact beq_iff_eq.mp h

/-- The id of an intrinsic in the well-known table. -/
def WellKnown.id (wk : WellKnown) : IntrinsicKind → TypeId
  | .error => wk.error
  | .any => wk.any
  | .unknown => wk.unknown
  | .never => wk.never
  | .void => wk.void
  | .null => wk.null
  | .undefined => wk.undefined
  | .boolean => wk.boolean
  | .number => wk.number
  | .string => wk.string
  | .uppercase => wk.uppercase
  | .lowercase => wk.lowercase
  | .capitalize => wk.capitalize
  | .uncapitalize => wk.uncapitalize
  | .thisType => wk.thisType
  | .omitThisParameter => wk.omitThisParameter
  | .object => wk.object
  | .bigInt => wk.bigint
  | .symbol => wk.symbol

@[simp] theorem WellKnown.id_ofKinds (idOf : IntrinsicKind → TypeId) (kind : IntrinsicKind) :
    (WellKnown.ofKinds idOf).id kind = idOf kind := by
  cases kind <;> rfl

namespace Interner

variable {σ σ' : Interner}

/-- The well-known ids denote the intrinsics. -/
def KnowsIntrinsics (σ : Interner) : Prop :=
  ∀ kind, σ.Structural (σ.wellKnown.id kind) (.intrinsic kind)

theorem KnowsIntrinsics.row (h : σ.KnowsIntrinsics) (kind : IntrinsicKind) :
    σ.store.row (σ.wellKnown.id kind) = some (.intrinsic kind) := (h kind).1

/-- No other id denotes an intrinsic. -/
theorem KnowsIntrinsics.eq_id (h : σ.KnowsIntrinsics) (hσ : σ.Consed structuralHash regular)
    {id : TypeId} {kind : IntrinsicKind} (hr : σ.store.row id = some (.intrinsic kind)) :
    id = σ.wellKnown.id kind := by
  have hfree : σ.reservedType id = none := by
    cases hres : σ.reservedType id with
    | none => rfl
    | some reserved =>
      -- only objects, conditionals and mapped types are ever reserved
      obtain ⟨r, hr', hkind⟩ := hσ.reserved_row id reserved hres
      rw [hr] at hr'
      cases hr'
      simp [Row.reservedKind] at hkind
  apply hσ.unique id _ _ _ _ ⟨hr, hfree⟩ (h kind) rfl
  apply TypeTag.exact_of_ne
  simp [Row.tag]

theorem KnowsIntrinsics.mono (h : σ.KnowsIntrinsics) (hext : Extends σ σ') :
    σ'.KnowsIntrinsics := by
  intro kind
  rw [hext.wellKnown]
  exact hext.structural (h kind)

theorem structural_internIntrinsics (kinds : List IntrinsicKind) :
    ∀ {σ : Interner} (idOf : IntrinsicKind → TypeId), σ.Consed structuralHash regular →
      ∀ kind, kind ∈ kinds ∨ σ.Structural (idOf kind) (.intrinsic kind) →
        (σ.internIntrinsics structuralHash idOf kinds).2.Structural
          ((σ.internIntrinsics structuralHash idOf kinds).1 kind) (.intrinsic kind) := by
  induction kinds with
  | nil =>
    intro σ idOf _ kind hkind
    rcases hkind with hkind | hkind
    · cases hkind
    · exact hkind
  | cons first rest ih =>
    intro σ idOf hσ kind hkind
    have hspec := internSpec_internIntrinsic hσ first
    unfold internIntrinsics
    apply ih _ (hσ.steps hspec.steps)
    by_cases heq : kind = first
    · -- the row just found or made
      subst heq
      obtain ⟨r, hr, hkey⟩ :=
        hspec.structural hσ (TypeTag.exact_of_ne (by simp [StructuralKey.tag]))
      have hkey' : r.key = (Row.intrinsic kind).key := hkey
      have htag : r.tag ≠ .typeParam := by
        rw [← Row.tag_key, hkey]
        simp [StructuralKey.tag]
      rw [Row.eq_of_key_eq hkey' htag] at hr
      rw [Function.update_self]
      exact .inr hr
    · rw [Function.update_of_ne heq]
      rcases hkind with hkind | hkind
      · exact .inl ((mem_cons.mp hkind).resolve_left heq)
      · exact .inr (hspec.steps.structural hσ hkind)

theorem knowsIntrinsics_withIntrinsics : (withIntrinsics structuralHash).KnowsIntrinsics := by
  intro kind
  have hempty : Interner.empty.Consed structuralHash True := consed_empty
  have hmade := structural_internIntrinsics IntrinsicKind.all (fun _ => 0) hempty kind
    (.inl (IntrinsicKind.mem_all kind))
  unfold withIntrinsics
  generalize empty.internIntrinsics structuralHash (fun _ => 0) IntrinsicKind.all = made at hmade ⊢
  obtain ⟨idOf, made⟩ := made
  simp only [WellKnown.id_ofKinds]
  exact hmade

/-- **The intrinsics keep their rows in every run.** -/
theorem Reachable.knowsIntrinsics (h : σ.Reachable structuralHash) : σ.KnowsIntrinsics := by
  obtain ⟨fuel, history, results, hrun⟩ := h
  have hstart : (withIntrinsics structuralHash).Consed structuralHash False := consed_withIntrinsics
  have hsteps := steps_runHistory hstart (fun _ _ => False.elim) hrun
  intro kind
  rw [hsteps.wellKnown]
  exact hsteps.structural hstart (knowsIntrinsics_withIntrinsics kind)

end Interner

/-! ## §4 Set types are made of earlier types -/

/-- The members of a set row. -/
def Row.setMembers : Row → List TypeId
  | .union members => members
  | .intersection members => members
  | _ => []

theorem Row.setMembers_of_reservedKind {r : Row} {kind : ReservedTypeKind}
    (h : r.reservedKind = some kind) : r.setMembers = [] := by
  cases r <;> first
    | rfl
    | cases h

/-- Every member of a set row has a smaller id. -/
def Store.SetsOrdered (s : Store) : Prop :=
  ∀ id r, s.row id = some r → ∀ member ∈ r.setMembers, member < id

namespace Interner

variable {σ σ' : Interner}

section Flat

variable (hσ : σ.Consed structuralHash regular)
include hσ

theorem lt_of_flatMember {tag : TypeTag} {member : TypeId} (h : σ.store.FlatMember tag member) :
    member < σ.store.len := by
  obtain ⟨other, hother, _⟩ := h
  obtain ⟨r, hr, _⟩ := row_of_tag hσ hother
  exact hσ.wellFormed.lt_of_row hr

/-- The members of a canonical set row have rows already. -/
theorem lt_of_mem_setMembers {r : Row} (hr : r.Canonical σ.store) {member : TypeId}
    (hmember : member ∈ r.setMembers) :
    member < σ.store.len := by
  cases r <;> simp only [Row.setMembers, not_mem_nil] at hmember
  case union members => exact lt_of_flatMember hσ (hr.flat member hmember)
  case intersection members => exact lt_of_flatMember hσ (hr.flat member hmember)

theorem CoreStep.setsOrdered (hordered : σ.store.SetsOrdered)
    (h : CoreStep structuralHash regular σ σ') :
    σ'.store.SetsOrdered := by
  intro id r hr member hmember
  cases h with
  | @interned added h =>
    by_cases hid : id = σ.store.len
    · subst hid
      rw [h.appended.row_new] at hr
      cases hr
      exact lt_of_mem_setMembers hσ h.canonical hmember
    · rw [h.appended.row_old id hid] at hr
      exact hordered id r hr member hmember
  | @reserved added kind happ hcanonical hkind hrest =>
    by_cases hid : id = σ.store.len
    · subst hid
      rw [happ.row_new] at hr
      cases hr
      rw [Row.setMembers_of_reservedKind hkind] at hmember
      cases hmember
    · rw [happ.row_old id hid] at hr
      exact hordered id r hr member hmember
  | @filled target body kind hpending hcanonical hkind hreplaced hrest =>
    by_cases hid : id = target
    · subst hid
      rw [hreplaced.row_new] at hr
      cases hr
      rw [Row.setMembers_of_reservedKind hkind] at hmember
      cases hmember
    · rw [hreplaced.row_old id hid] at hr
      exact hordered id r hr member hmember
  | promoted hfrozen hrow hfresh hrest =>
    rw [hrest] at hr
    exact hordered id r hr member hmember
  | resealed hresealed =>
    rw [hresealed.row_eq id] at hr
    exact hordered id r hr member hmember
  | side hrow =>
    rw [hrow id] at hr
    exact hordered id r hr member hmember

theorem Steps.setsOrdered (hordered : σ.store.SetsOrdered) (h : Steps structuralHash regular σ σ') :
    σ'.store.SetsOrdered := by
  induction h with
  | refl => exact hordered
  | tail hsteps hstep ih => exact hstep.setsOrdered (hσ.steps hsteps) ih

end Flat

/-- **In every run set types are made of earlier types.** -/
theorem Reachable.setsOrdered (h : σ.Reachable structuralHash) : σ.store.SetsOrdered := by
  obtain ⟨fuel, history, results, hrun⟩ := h
  have hempty : Interner.empty.Consed structuralHash False := consed_empty
  have hnone : Interner.empty.store.SetsOrdered := by
    intro id r hr
    rw [row_empty] at hr
    cases hr
  have hstart : (withIntrinsics structuralHash).store.SetsOrdered := by
    have hmade := Steps.setsOrdered hempty hnone
      (steps_internIntrinsics IntrinsicKind.all (fun _ => 0) hempty)
    unfold withIntrinsics
    generalize empty.internIntrinsics structuralHash (fun _ => 0) IntrinsicKind.all = made at hmade ⊢
    exact hmade
  exact Steps.setsOrdered consed_withIntrinsics hstart
    (steps_runHistory consed_withIntrinsics (fun _ _ => False.elim) hrun)

end Interner

end Typokat.Types
