import Typokat.Types.Reach

/-!
# Type Identity

The two guarantees the rest of the checker relies on when it compares types by id.
Hash-consing: among structural rows an id is a structure, whatever the hash function does.
Publication: a batch of fills is all or nothing, and a published body is final.

## Main Results

- `Interner.hash_consing_invariant`
- `Interner.fillReservedTypeBatch_atomic`
-/

namespace Typokat.Types

open Option

variable {structuralHash : StructuralKey → Nat} {regular : Prop}

namespace Interner

/-! ## §1 The structure a constructor asks for -/

/-- The key of a union of flat members, unless it absorbs or collapses to a member. -/
def unionKey (σ : Interner) (flat : List TypeId) : Option StructuralKey :=
  let wk := σ.wellKnown
  if flat.any (fun m => m == wk.any || m == wk.error) then none
  else if flat.contains wk.unknown then none
  else
    match sortDedup (flat.filter (fun m => m != wk.never)) with
    | [] => none
    | [_] => none
    | canonical => some (.union canonical)

/-- The key of an intersection of flat members, unless it absorbs or collapses. -/
def intersectionKey (σ : Interner) (flat : List TypeId) : Option StructuralKey :=
  let wk := σ.wellKnown
  if flat.contains wk.error then none
  else if flat.contains wk.never then none
  else if flat.contains wk.any then none
  else
    let canonical := sortDedup (flat.filter (fun m => m != wk.unknown))
    if hasDefinitelyDisjointMembers σ.store canonical then none
    else
      match canonical with
      | [] => none
      | [_] => none
      | canonical => some (.intersection canonical)

/-- The structure that a constructor call asks the dedup index for. -/
def askedKey (σ : Interner) : InternerOp → Option StructuralKey
  | .internIntrinsic kind => some (.intrinsic kind)
  | .internLiteral value => some (.literal value)
  | .internTypeParam id _ => some (.typeParam id)
  | .internInfer index => some (.infer index)
  | .internObject body => some body.canonical.key
  | .internFunction body => some body.key
  | .internArray element => some (.array element)
  | .internTuple elements => some (.tuple { elements })
  | .internTupleType body => some (.tuple body)
  | .internReadonly operand => some (.readonly operand)
  | .internConditional body => some body.key
  | .internInstantiation base args => some (.instantiation base (sortArgs args))
  | .internClassInstance classId args => some (.classInstance classId args)
  | .internDeferredIndexedAccess object index => some (.deferredIndexedAccess object index)
  | .internMapped body => some body.key
  | .internKeyof operand => some (.keyof operand)
  | .internTemplate body => some (.template body.texts body.holes)
  | .internMappedValue => some .mappedValue
  | .union members => (σ.flattenMembers Store.unionMembers members).bind σ.unionKey
  | .intersection members =>
    (σ.flattenMembers Store.intersectionMembers members).bind σ.intersectionKey
  | .internDeclared recipe mapper =>
    (σ.store.declaredRecipe recipe).map (fun body =>
      .declared recipe (canonicalMapper body mapper))
  | _ => none

section Asked

variable {σ σ' : Interner}

/-- A union that does not collapse goes through the constructor of its key. -/
theorem unionOfFlat_of_unionKey (structuralHash : StructuralKey → Nat) {flat : List TypeId}
    {key : StructuralKey}
    (h : σ.unionKey flat = some key) :
    key = .union (sortDedup (flat.filter (fun m => m != σ.wellKnown.never))) ∧
      σ.unionOfFlat structuralHash flat
        = σ.internUnion structuralHash
            (sortDedup (flat.filter (fun m => m != σ.wellKnown.never))) ∧
      2 ≤ (sortDedup (flat.filter (fun m => m != σ.wellKnown.never))).length := by
  unfold unionKey at h
  unfold unionOfFlat
  dsimp only at h ⊢
  split at h
  · cases h
  · rename_i habsorbed
    split at h
    · cases h
    · rename_i hunknown
      rw [if_neg habsorbed, if_neg hunknown]
      generalize sortDedup (flat.filter (fun m => m != σ.wellKnown.never)) = canonical at h ⊢
      rcases canonical with _ | ⟨m, _ | ⟨m', rest⟩⟩
      · cases h
      · cases h
      · cases h
        exact ⟨rfl, rfl, by simp⟩

theorem intersectionOfFlat_of_intersectionKey (structuralHash : StructuralKey → Nat)
    {flat : List TypeId} {key : StructuralKey}
    (h : σ.intersectionKey flat = some key) :
    key = .intersection (sortDedup (flat.filter (fun m => m != σ.wellKnown.unknown))) ∧
      σ.intersectionOfFlat structuralHash flat
        = σ.internIntersection structuralHash
            (sortDedup (flat.filter (fun m => m != σ.wellKnown.unknown))) ∧
      2 ≤ (sortDedup (flat.filter (fun m => m != σ.wellKnown.unknown))).length := by
  unfold intersectionKey at h
  unfold intersectionOfFlat
  dsimp only at h ⊢
  split at h
  · cases h
  · rename_i herror
    split at h
    · cases h
    · rename_i hnever
      split at h
      · cases h
      · rename_i hany
        split at h
        · cases h
        · rename_i hdisjoint
          rw [if_neg herror, if_neg hnever, if_neg hany, if_neg hdisjoint]
          generalize sortDedup (flat.filter (fun m => m != σ.wellKnown.unknown)) = canonical at h ⊢
          rcases canonical with _ | ⟨m, _ | ⟨m', rest⟩⟩
          · cases h
          · cases h
          · cases h
            exact ⟨rfl, rfl, by simp⟩

/-- **A constructor call returns a structural row with the structure it asked for.** -/
theorem structural_of_askedKey (hσ : σ.Consed structuralHash True) {fuel : Nat} {op : InternerOp}
    (hop : op.Regular) {key : StructuralKey} (hkey : σ.askedKey op = some key) {ty : TypeId}
    (h : op.step structuralHash fuel σ = some (.id ty, σ')) :
    ∃ r, σ'.Structural ty r ∧ r.key = key := by
  -- every constructor meets the one specification at its key
  have hspec : InternSpec structuralHash True σ key (ty, σ') := by
    cases op <;> simp only [askedKey, some.injEq, reduceCtorEq] at hkey <;>
      simp only [InternerOp.step, some.injEq] at h
    case internIntrinsic kind => cases hkey; cases h; exact internSpec_internIntrinsic hσ kind
    case internLiteral value => cases hkey; cases h; exact internSpec_internLiteral hσ (fun _ => hop)
    case internTypeParam id name => cases hkey; cases h; exact internSpec_internTypeParam hσ id name
    case internInfer index => cases hkey; cases h; exact internSpec_internInfer hσ index
    case internObject body => cases hkey; cases h; exact internSpec_internObject hσ body
    case internFunction body => cases hkey; cases h; exact internSpec_internFunction hσ body
    case internArray element => cases hkey; cases h; exact internSpec_internArray hσ element
    case internTuple elements => cases hkey; cases h; exact internSpec_internTupleType hσ _
    case internTupleType body => cases hkey; cases h; exact internSpec_internTupleType hσ body
    case internReadonly operand => cases hkey; cases h; exact internSpec_internReadonly hσ operand
    case internConditional body => cases hkey; cases h; exact internSpec_internConditional hσ body
    case internInstantiation base args =>
      cases hkey
      cases h
      exact internSpec_internInstantiation hσ base args
    case internClassInstance classId args =>
      cases hkey
      cases h
      exact internSpec_internClassInstance hσ classId args
    case internDeferredIndexedAccess object index =>
      cases hkey
      cases h
      exact internSpec_internDeferredIndexedAccess hσ object index
    case internMapped body => cases hkey; cases h; exact internSpec_internMapped hσ body
    case internKeyof operand => cases hkey; cases h; exact internSpec_internKeyof hσ operand
    case internTemplate body => cases hkey; cases h; exact internSpec_internTemplate hσ body
    case internMappedValue => cases hkey; cases h; exact internSpec_internMappedValue hσ
    case union members =>
      obtain ⟨flat, hflatten, hkey⟩ := bind_eq_some_iff.mp hkey
      obtain ⟨rfl, hmade, htwo⟩ := unionOfFlat_of_unionKey structuralHash hkey
      have hflat := flatMember_of_flattenMembers hσ.wellFormed .unions (fun _ hnone => hnone)
        hflatten
      rw [Interner.union, hflatten, map_some, hmade] at h
      cases h
      exact internSpec_internUnion hσ ⟨pairwise_sortDedup _, htwo,
        fun member hmem => hflat member (mem_of_mem_sortDedup_filter hmem)⟩
    case intersection members =>
      obtain ⟨flat, hflatten, hkey⟩ := bind_eq_some_iff.mp hkey
      obtain ⟨rfl, hmade, htwo⟩ := intersectionOfFlat_of_intersectionKey structuralHash hkey
      have hflat := flatMember_of_flattenMembers hσ.wellFormed .intersections
        (fun _ hnone => hnone) hflatten
      rw [Interner.intersection, hflatten, map_some, hmade] at h
      cases h
      exact internSpec_internIntersection hσ ⟨pairwise_sortDedup _, htwo,
        fun member hmem => hflat member (mem_of_mem_sortDedup_filter hmem)⟩
    case internDeclared recipe mapper =>
      obtain ⟨body, hbody, rfl⟩ := map_eq_some_iff.mp hkey
      rw [Interner.internDeclared, hbody] at h
      cases h
      exact internSpec_internDeclaredType hσ hbody mapper
  rcases hspec with ⟨hsame, r, hr, hrkey⟩ | ⟨r, hrkey, hid, hint⟩
  · dsimp only at hsame
    rw [hsame]
    exact ⟨r, hr, hrkey (fun _ => trivial)⟩
  · exact ⟨r, (hint.structural_iff hσ _ _).mpr (.inl ⟨hid, rfl⟩), hrkey⟩

end Asked

/-! ## §2 Hash-consing -/

/-- How often an id is a candidate of a hash, in the sealed and in the local index. -/
def candidacies (σ : Interner) (hash : Nat) (id : TypeId) : Nat :=
  ((σ.dedupBase.lookup hash).getD []).count id + ((σ.dedup.lookup hash).getD []).count id

theorem candidacies_eq_count (σ : Interner) (hash : Nat) (id : TypeId) :
    σ.candidacies hash id = (σ.bucket hash).count id := by
  rw [candidacies, bucket, List.count_append]

theorem Consed.candidacies {σ : Interner} (hσ : σ.Consed structuralHash regular) {id : TypeId}
    {r : Row} (hr : σ.Structural id r) (hash : Nat) :
    σ.candidacies hash id = if hash = structuralHash r.key then 1 else 0 := by
  rw [candidacies_eq_count]
  split
  · rename_i heq
    exact List.count_eq_one_of_mem (hσ.nodup_bucket hash)
      ((hσ.mem_bucket hash id).mpr ⟨r, hr, heq.symm⟩)
  · rename_i hne
    refine List.count_eq_zero_of_not_mem (fun hmem => ?_)
    obtain ⟨r', hr', hhash⟩ := (hσ.mem_bucket hash id).mp hmem
    have heq : r' = r := some.inj (hr'.1.symm.trans hr.1)
    exact hne (heq ▸ hhash.symm)

/-- **Hash-consing.**  After any history whose number literals are neither `NaN` nor `-0`,
    a structural row is a candidate of its own hash once and of no other, reservations are
    no candidates, no two structural rows are structurally equal, and any two constructor
    calls from there on return one id exactly when they ask for one structure. -/
theorem hash_consing_invariant (structuralHash : StructuralKey → Nat) (fuel : Nat)
    (history : List InternerOp) (results : List OpResult) (σ : Interner)
    (hregular : ∀ op ∈ history, op.Regular)
    (hrun : runHistory structuralHash fuel history (withIntrinsics structuralHash)
      = some (results, σ)) :
    (∀ id r, σ.Structural id r → ∀ hash,
      σ.candidacies hash id = if hash = structuralHash r.key then 1 else 0) ∧
    (∀ id reserved, σ.reservedType id = some reserved → ∀ hash, σ.candidacies hash id = 0) ∧
    (∀ id id' r r', σ.Structural id r → σ.Structural id' r' → r.key = r'.key → id = id') ∧
    (∀ (first second : InternerOp) (between : List InternerOp) (returned : List OpResult)
      (fuel₂ : Nat) (ty ty' : TypeId) (σ₁ σ₂ σ₃ : Interner) (key key' : StructuralKey),
      first.Regular → second.Regular → (∀ op ∈ between, op.Regular) →
      σ.askedKey first = some key → first.step structuralHash fuel₂ σ = some (.id ty, σ₁) →
      runHistory structuralHash fuel₂ between σ₁ = some (returned, σ₂) →
      σ₂.askedKey second = some key' →
      second.step structuralHash fuel₂ σ₂ = some (.id ty', σ₃) →
      (ty = ty' ↔ key = key')) := by
  have hσ : σ.Consed structuralHash True :=
    consed_runHistory (fun op hmem _ => hregular op hmem) hrun
  refine ⟨fun id r hr hash => hσ.candidacies hr hash, ?_, ?_, ?_⟩
  · intro id reserved hres hash
    rw [candidacies_eq_count]
    refine List.count_eq_zero_of_not_mem (fun hmem => ?_)
    obtain ⟨r, hr, _⟩ := (hσ.mem_bucket hash id).mp hmem
    rw [hr.2] at hres
    cases hres
  · exact fun id id' r r' => hσ.unique id id' r r' (fun _ => trivial)
  · intro first second between returned fuel₂ ty ty' σ₁ σ₂ σ₃ key key' hfirst hsecond hbetween
      hkey hstep hhistory hkey' hstep'
    have hsteps₁ := steps_step hσ (fun _ => hfirst) hstep
    have hσ₁ := hσ.steps hsteps₁
    have hsteps₂ := steps_runHistory hσ₁ (fun op hmem _ => hbetween op hmem) hhistory
    have hσ₂ := hσ₁.steps hsteps₂
    have hsteps₃ := steps_step hσ₂ (fun _ => hsecond) hstep'
    have hσ₃ := hσ₂.steps hsteps₃
    -- both rows are structural at the end, where keys are unique
    obtain ⟨r, hr, hrkey⟩ := structural_of_askedKey hσ hfirst hkey hstep
    obtain ⟨r', hr', hrkey'⟩ := structural_of_askedKey hσ₂ hsecond hkey' hstep'
    have hlast : σ₃.Structural ty r := Steps.structural hσ₁ (hsteps₂.trans hsteps₃) hr
    constructor
    · rintro rfl
      have heq : r = r' := some.inj (hlast.1.symm.trans hr'.1)
      rw [← hrkey, ← hrkey', heq]
    · rintro rfl
      exact hσ₃.unique ty ty' r r' (fun _ => trivial) hlast hr' (hrkey.trans hrkey'.symm)

/-- Two arrays interned around a reservation, under a hash function that always collides. -/
theorem hash_consing_invariant_collision :
    ∃ results σ, runHistory (fun _ => 0) 0 [.internArray 7, .reserveObject, .internArray 8]
        (withIntrinsics (fun _ => 0)) = some (results, σ) ∧
      (∀ id r, σ.Structural id r → σ.candidacies 0 id = 1) ∧
      ∀ id reserved, σ.reservedType id = some reserved → σ.candidacies 0 id = 0 := by
  refine ⟨_, _, rfl, ?_⟩
  have hcons := hash_consing_invariant (fun _ => 0) 0
    [.internArray 7, .reserveObject, .internArray 8] _ _ (by simp [InternerOp.Regular]) rfl
  exact ⟨fun id r hr => hcons.1 id r hr 0, fun id reserved hres => hcons.2.1 id reserved hres 0⟩

/-! ## §3 Publication -/

/-- **Batch filling is atomic and publication is final.**  A batch never panics.  When it
    returns an error the interner is as it was.  When it returns `Ok`, exactly the targeted
    rows have changed, each to its canonical body, each reservation is frozen, and whatever
    history follows, no settled row changes again. -/
theorem fillReservedTypeBatch_atomic (structuralHash : StructuralKey → Nat) (σ : Interner)
    (hσ : σ.Reachable structuralHash) (fills : List ReservedTypeFill) :
    (∃ error, σ.fillReservedTypeBatch fills = some (.error error, σ)) ∨
    ∃ σ', σ.fillReservedTypeBatch fills = some (.ok (), σ') ∧
      (∀ fill ∈ fills, σ'.store.row fill.target = some fill.body) ∧
      (∀ fill ∈ fills, σ'.reservedType fill.target = some ⟨fill.kind, .frozen⟩) ∧
      (∀ id, id ∉ fills.map ReservedTypeFill.target →
        σ'.store.row id = σ.store.row id ∧ σ'.reservedType id = σ.reservedType id) ∧
      (∀ hash id, σ'.candidacies hash id = σ.candidacies hash id) ∧
      ∀ fuel history results τ, runHistory structuralHash fuel history σ' = some (results, τ) →
        ∀ id r, σ'.store.row id = some r → σ'.Settled id →
          τ.store.row id = some r ∧ τ.Settled id := by
  have hcons := hσ.consed
  rcases fillReservedTypeBatch_cases hcons fills with herror | ⟨σ', hok, hfilled, _⟩
  · exact .inl herror
  · refine .inr ⟨σ', hok, hfilled.row_new, hfilled.reserved_new,
      fun id hid => ⟨hfilled.row_old id hid, hfilled.reserved_old id hid⟩, ?_, ?_⟩
    · intro hash id
      rw [candidacies, hfilled.dedup_eq, hfilled.dedupBase_eq, candidacies]
    · intro fuel history results τ hrun id r hr hs
      have hcons' := hcons.steps hfilled.steps
      exact Steps.settled hcons' (steps_runHistory hcons' (fun _ _ => False.elim) hrun) hr hs

/-- A fresh reservation is filled with the empty object. -/
theorem fillReservedTypeBatch_atomic_reserved :
    ∃ σ σ' : Interner, σ.Reachable (fun _ => 0) ∧
      σ.fillReservedTypeBatch [.object 19 {}] = some (.ok (), σ') ∧
      σ'.store.row 19 = some (.object {}) ∧
      σ'.reservedType 19 = some ⟨.object, .frozen⟩ := by
  have hreach : ((withIntrinsics (fun _ => 0)).reserveObject.2).Reachable (fun _ => 0) :=
    ⟨0, [.reserveObject], _, rfl⟩
  have hvalid : (withIntrinsics (fun _ => 0)).reserveObject.2.validateFills [.object 19 {}]
      = .ok () := by decide +kernel
  rcases fillReservedTypeBatch_atomic (fun _ => 0) _ hreach [.object 19 {}] with
    ⟨error, herror⟩ | ⟨σ', hok, hrow, hfrozen, _⟩
  · obtain ⟨σ', hok, _⟩ := filled_of_validateFills hreach.consed hvalid
    rw [hok] at herror
    cases herror
  · exact ⟨_, σ', hreach, hok, hrow (.object 19 {}) (by simp), hfrozen (.object 19 {}) (by simp)⟩

end Interner

end Typokat.Types
