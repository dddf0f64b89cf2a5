import Typokat.Types.History

/-!
# Hash-Consing

The dedup index covers exactly the structural rows, each under the hash of its own key,
and no two structural rows have the same key.  Every constructor decides in its bucket
with a closure of its own; the first half of this module shows that each closure decides
the structural key, so that one specification (`InternSpec`) covers them all.

## Main Results

- `Interner.Consed` : the invariant
- `Interner.internSpec_internWith` : what a constructor does, and one instance for each
-/

namespace Typokat.Types

open Store Row Option

/-! ## §1 Keys determine rows -/

/-- The tag a structural key belongs to. -/
def StructuralKey.tag : StructuralKey → TypeTag
  | .intrinsic _ => .intrinsic
  | .literal _ => .literal
  | .object .. => .object
  | .function .. => .function
  | .union _ => .union
  | .intersection _ => .intersection
  | .typeParam _ => .typeParam
  | .array _ => .array
  | .tuple _ => .tuple
  | .readonly _ => .readonly
  | .conditional .. => .conditional
  | .instantiation .. => .instantiation
  | .classInstance .. => .classInstance
  | .infer _ => .infer
  | .mapped .. => .mapped
  | .mappedValue => .mappedValue
  | .template .. => .template
  | .keyof _ => .keyof
  | .deferredIndexedAccess .. => .deferredIndexedAccess
  | .declared .. => .declared

@[simp] theorem Row.tag_key (r : Row) : r.key.tag = r.tag := by
  cases r <;> rfl

/-- Rows with one key are equal, up to the name of a type parameter. -/
theorem Row.eq_of_key_eq {r r' : Row} (h : r.key = r'.key) (htag : r.tag ≠ .typeParam) :
    r = r' := by
  have htags : r.tag = r'.tag := by
    rw [← tag_key, ← tag_key, h]
  -- only the diagonal survives the tags
  cases r <;> cases r' <;> simp only [tag, reduceCtorEq] at htags <;> first
    | exact absurd rfl htag
    | rfl
    | exact congrArg object (ObjectType.key_injective h)
    | exact congrArg function (FunctionType.key_injective h)
    | exact congrArg conditional (ConditionalType.key_injective h)
    | exact congrArg mapped (MappedType.key_injective h)
    | (injection h with h; rw [h])
    | (rename_i a b; cases a; cases b; injection h with h₁ h₂; simp only at h₁ h₂; rw [h₁, h₂])

theorem Row.ofEntry_of_key_eq {t : SideTable} (ht : t ≠ .typeParams) {e : t.Entry} {r : Row}
    (h : r.key = (ofEntry t e).key) : r = ofEntry t e := by
  refine eq_of_key_eq h (fun htag => ht ?_)
  have htags : r.tag = t.tag := by
    rw [← tag_key, h, tag_key, tag_ofEntry]
  exact SideTable.tag_injective (htags.symm.trans htag)

/-! ## §2 Closures decide keys -/

namespace Store

variable {s : Store}

/-- The closure accepts exactly the rows with the key. -/
def Decides (s : Store) (eq : Store → TypeId → Bool) (key : StructuralKey) : Prop :=
  ∀ id, eq s id = true ↔ ∃ r, s.row id = some r ∧ r.key = key

/-- A closure over a side table decides the key of the entry it looks for. -/
theorem decides_entry {t : SideTable} (ht : t ≠ .typeParams) {e : t.Entry} {p : t.Entry → Bool}
    (hp : ∀ id e', s.row id = some (ofEntry t e') → (p e' = true ↔ e' = e)) :
    s.Decides (fun s id => (s.entry t id).any p) (ofEntry t e).key := by
  intro id
  simp only [any_eq_true]
  constructor
  · rintro ⟨e', he', hpe⟩
    have hrow := (s.entry_eq_some_iff t id e').mp he'
    rw [(hp id e' hrow).mp hpe] at hrow
    exact ⟨_, hrow, rfl⟩
  · rintro ⟨r, hr, hkey⟩
    rw [ofEntry_of_key_eq ht hkey] at hr
    exact ⟨e, (s.entry_eq_some_iff t id e).mpr hr, (hp id e hr).mpr rfl⟩

/-- A closure that compares the whole entry. -/
theorem decides_entry_eq {t : SideTable} (ht : t ≠ .typeParams) {e : t.Entry}
    {eq : Store → TypeId → Bool} (heq : ∀ id, eq s id = true ↔ s.entry t id = some e) :
    s.Decides eq (ofEntry t e).key := by
  intro id
  rw [heq, entry_eq_some_iff]
  constructor
  · intro h
    exact ⟨_, h, rfl⟩
  · rintro ⟨r, hr, hkey⟩
    rw [ofEntry_of_key_eq ht hkey] at hr
    exact hr

/-- A closure over an inline payload decides the key of its row. -/
theorem decides_inline {tag : TypeTag} (htag : tag.sideTable = none) {p : Nat} {r : Row}
    (hr : ∀ q, ofInline tag q = some r ↔ q = p) :
    s.Decides (fun s id => s.inlinePayload tag id == some p) r.key := by
  have hrtag : r.tag = tag := tag_of_ofInline ((hr p).mpr rfl)
  intro id
  simp only [beq_iff_eq, s.inlinePayload_eq_some_iff htag hr]
  constructor
  · intro h
    exact ⟨r, h, rfl⟩
  · rintro ⟨r', hr', hkey⟩
    have htag' : r'.tag = r.tag := by rw [← tag_key, hkey, tag_key]
    rw [eq_of_key_eq hkey (fun h => by rw [← hrtag, ← htag', h] at htag; cases htag)] at hr'
    exact hr'

theorem decides_intrinsic (kind : IntrinsicKind) :
    s.Decides (fun s id => s.intrinsicKind id == some kind) (.intrinsic kind) := by
  have hfind : ∀ raw, IntrinsicKind.all.find? (fun k => k.discriminant == raw) = some kind ↔
      raw = kind.discriminant := by
    intro raw
    constructor
    · intro h
      have hfound := List.find?_some (p := fun k : IntrinsicKind => k.discriminant == raw) h
      exact (beq_iff_eq.mp hfound).symm
    · rintro rfl
      cases kind <;> rfl
  have hrow : ∀ q, ofInline .intrinsic q = some (.intrinsic kind) ↔ q = kind.discriminant := by
    intro q
    rw [← hfind q]
    simp [ofInline]
  have hinline := decides_inline (s := s) rfl hrow
  intro id
  rw [← show (intrinsic kind).key = .intrinsic kind from rfl, ← hinline id]
  simp only [intrinsicKind, beq_iff_eq, bind_eq_some_iff, hfind, exists_eq_right]

theorem decides_typeParam (id : TypeParamId) :
    s.Decides (fun s ty => (s.typeParam ty).map (fun param => param.id) == some id)
      (.typeParam id) := by
  intro ty
  simp only [beq_iff_eq]
  rw [map_eq_some_iff]
  constructor
  · rintro ⟨param, hparam, rfl⟩
    exact ⟨_, (s.entry_eq_some_iff .typeParams ty param).mp hparam, rfl⟩
  · rintro ⟨r, hr, hkey⟩
    cases r <;> simp only [key, ObjectType.key, FunctionType.key, ConditionalType.key,
      MappedType.key, reduceCtorEq, StructuralKey.typeParam.injEq] at hkey
    exact ⟨_, (s.entry_eq_some_iff .typeParams ty _).mpr hr, hkey⟩

theorem decides_mappedValue (hs : s.WellFormed) :
    s.Decides (fun s id => s.tag id == some .mappedValue) .mappedValue := by
  intro id
  simp only [beq_iff_eq]
  constructor
  · intro h
    obtain ⟨payload, hpayload⟩ := hs.payload_isSome h
    refine ⟨.mappedValue, ?_, rfl⟩
    rw [row_of_inline_tag h rfl, hpayload]
    rfl
  · rintro ⟨r, hr, hkey⟩
    have htag : r.tag = .mappedValue := by rw [← tag_key, hkey]; rfl
    rw [tag_of_row hr, htag]

end Store

/-! ## §3 The invariant -/

/-- The reservation kind a row can back. -/
def Row.reservedKind : Row → Option ReservedTypeKind
  | .object _ => some .object
  | .conditional _ => some .conditional
  | .mapped _ => some .mapped
  | _ => none

/-- A member of a set type is a row of another tag. -/
def Store.FlatMember (s : Store) (tag : TypeTag) (member : TypeId) : Prop :=
  ∃ other, s.tag member = some other ∧ other ≠ tag

/-- The members of a stored set type: at least two, ascending, and none of the same kind. -/
structure Store.SetMembers (s : Store) (tag : TypeTag) (members : List TypeId) : Prop where
  sorted : members.Pairwise (· < ·)
  two_le : 2 ≤ members.length
  flat : ∀ member ∈ members, s.FlatMember tag member

/-- Rows in the form the constructors give them: object properties in canonical order, set
    types sorted and flat, and the mapper of a declared application sorted over the free parameters of
    its recipe. -/
def Row.Canonical (s : Store) : Row → Prop
  | .object body => body.canonical = body
  | .union members => s.SetMembers .union members
  | .intersection members => s.SetMembers .intersection members
  | .declared body => ∃ recipe, s.declaredRecipe body.recipe = some recipe ∧
      (body.mapper.map (fun entry => entry.1)).Pairwise (· < ·) ∧
      ∀ entry ∈ body.mapper, entry.1 ∈ recipe.freeParams
  | _ => True

theorem Row.Canonical.mono {s s' : Store} {r : Row} (h : r.Canonical s)
    (htag : ∀ id tag, s.tag id = some tag → s'.tag id = some tag)
    (hrecipe : ∀ id recipe, s.declaredRecipe id = some recipe →
      s'.declaredRecipe id = some recipe) : r.Canonical s' := by
  cases r <;> try trivial
  case union members =>
    refine ⟨h.sorted, h.two_le, fun member hmem => ?_⟩
    obtain ⟨tag, htag', hne⟩ := h.flat member hmem
    exact ⟨tag, htag member tag htag', hne⟩
  case intersection members =>
    refine ⟨h.sorted, h.two_le, fun member hmem => ?_⟩
    obtain ⟨tag, htag', hne⟩ := h.flat member hmem
    exact ⟨tag, htag member tag htag', hne⟩
  case declared body =>
    obtain ⟨recipe, hrec, hsorted, hfree⟩ := h
    exact ⟨recipe, hrecipe _ _ hrec, hsorted, hfree⟩

/-- A row that backs a reservation asks nothing of the store. -/
theorem Row.Canonical.of_reservedKind {s s' : Store} {r : Row} {kind : ReservedTypeKind}
    (hkind : r.reservedKind = some kind) (h : r.Canonical s) : r.Canonical s' := by
  cases r <;> first | exact h | cases hkind

/-- No literal but those that are neither `NaN` nor `-0`. -/
def Row.Regular : Row → Prop
  | .literal value => value.Regular
  | _ => True

theorem Row.regular_of_reservedKind {r : Row} {kind : ReservedTypeKind}
    (h : r.reservedKind = some kind) : r.Regular := by
  cases r <;> trivial

/-- Literals are compared as numbers are, so they are exact only among regular ones. -/
def TypeTag.Exact (tag : TypeTag) (regular : Prop) : Prop := tag = .literal → regular

theorem TypeTag.exact_of_ne {tag : TypeTag} {regular : Prop} (h : tag ≠ .literal) :
    tag.Exact regular := fun heq => absurd heq h

variable (structuralHash : StructuralKey → Nat) (regular : Prop)

namespace Interner

/-- A row that is not a registered reservation. -/
def Structural (interner : Interner) (id : TypeId) (r : Row) : Prop :=
  interner.store.row id = some r ∧ interner.reservedType id = none

/-- **The hash-consing invariant.**  `regular` says that every number literal ever interned is
    neither `NaN` nor `-0`; without it nothing is said about the identity of literals. -/
structure Consed (interner : Interner) : Prop where
  wellFormed : interner.store.WellFormed
  /-- a bucket holds exactly the structural rows with its hash -/
  mem_bucket : ∀ hash id, id ∈ interner.bucket hash ↔
    ∃ r, interner.Structural id r ∧ structuralHash r.key = hash
  nodup_bucket : ∀ hash, (interner.bucket hash).Nodup
  /-- no two structural rows have one key -/
  unique : ∀ id id' r r', r.tag.Exact regular → interner.Structural id r →
    interner.Structural id' r' → r.key = r'.key → id = id'
  canonical : ∀ id r, interner.store.row id = some r → r.Canonical interner.store
  recipes : ∀ id recipe, interner.store.declaredRecipe id = some recipe →
    recipe.freeParams.Pairwise (· < ·)
  literals : regular → ∀ id r, interner.store.row id = some r → r.Regular
  reserved_row : ∀ id reserved, interner.reservedType id = some reserved →
    ∃ r, interner.store.row id = some r ∧ r.reservedKind = some reserved.kind
  /-- sealed reservations are frozen rows of the base -/
  reserved_base : ∀ id reserved, interner.reservedTypesBase.lookup id = some reserved →
    id < interner.store.baseLen ∧ reserved.state = .frozen
  /-- local reservations are rows of the suffix -/
  reserved_local : ∀ id, id ∈ interner.reservedTypes → interner.store.baseLen ≤ id

/-- One structural row is added and becomes a candidate of its bucket. -/
structure Interned (σ σ' : Interner) (r : Row) : Prop where
  appended : Store.Appended σ.store σ'.store r
  canonical : r.Canonical σ.store
  literal : regular → r.Regular
  fresh : r.tag.Exact regular → ∀ id r', σ.Structural id r' → r'.key ≠ r.key
  rest_eq : σ' = { σ.pushCandidate (structuralHash r.key) σ.store.len with store := σ'.store }

/-- What a constructor with the given key does: it finds the structural row with the key, or
    adds it. -/
def InternSpec (σ : Interner) (key : StructuralKey) (result : TypeId × Interner) : Prop :=
  (result.2 = σ ∧ ∃ r, σ.Structural result.1 r ∧ (key.tag.Exact regular → r.key = key)) ∨
    ∃ r, r.key = key ∧ result.1 = σ.store.len ∧ Interned structuralHash regular σ result.2 r

variable {structuralHash regular}

section Lookup

variable {σ : Interner} (hσ : σ.Consed structuralHash regular) {eq : Store → TypeId → Bool}
include hσ

theorem Consed.lookup_eq_some {hash : Nat} {id : TypeId} (h : σ.lookup hash eq = some id) :
    ∃ r, σ.Structural id r ∧ eq σ.store id = true := by
  obtain ⟨r, hr, _⟩ := (hσ.mem_bucket _ _).mp (List.mem_of_find?_eq_some h)
  exact ⟨r, hr, List.find?_some h⟩

theorem Consed.lookup_eq_none {key : StructuralKey} (heq : σ.store.Decides eq key)
    (h : σ.lookup (structuralHash key) eq = none) {id : TypeId} {r : Row} (hr : σ.Structural id r) :
    r.key ≠ key := by
  rintro rfl
  have hmem : id ∈ σ.bucket (structuralHash r.key) := (hσ.mem_bucket _ _).mpr ⟨r, hr, rfl⟩
  exact List.find?_eq_none.mp h id hmem ((heq id).mpr ⟨r, hr.1, rfl⟩)

/-- **A constructor whose closure decides its key meets the specification.** -/
theorem internSpec_internWith {key : StructuralKey} {push : Store → TypeId × Store} {r : Row}
    (heq : key.tag.Exact regular → σ.store.Decides eq key) (hkey : r.key = key)
    (hr : r.Canonical σ.store) (hlit : regular → r.Regular) (hid : (push σ.store).1 = σ.store.len)
    (happ : Store.Appended σ.store (push σ.store).2 r) :
    InternSpec structuralHash regular σ key (σ.internWith structuralHash key eq push) := by
  unfold internWith
  dsimp only
  split
  · rename_i existing hlookup
    obtain ⟨r', hr', haccept⟩ := hσ.lookup_eq_some hlookup
    refine .inl ⟨rfl, r', hr', fun hexact => ?_⟩
    obtain ⟨r'', hr'', hkey''⟩ := (heq hexact existing).mp haccept
    rw [hr'.1, some.injEq] at hr''
    exact hr'' ▸ hkey''
  · rename_i hlookup
    refine .inr ⟨r, hkey, hid, happ, hr, hlit, fun hexact id r' hr' => ?_, ?_⟩
    · rw [hkey]
      rw [← tag_key, hkey] at hexact
      exact hσ.lookup_eq_none (heq hexact) hlookup hr'
    · rw [hkey, ← hid]
      rfl

end Lookup

/-! ## §4 The constructors -/

section Constructors

variable {σ : Interner}

section Plain

variable (hσ : σ.Consed structuralHash regular)
include hσ

/-- The shape of a constructor that keeps its data in a side table. -/
theorem internSpec_entry {t : SideTable} {e : t.Entry} {eq : Store → TypeId → Bool}
    (heq : σ.store.Decides eq (ofEntry t e).key) (hr : (ofEntry t e).Canonical σ.store)
    (hlit : (ofEntry t e).Regular) (flags : TypeFlags) :
    InternSpec structuralHash regular σ (ofEntry t e).key
      (σ.internWith structuralHash (ofEntry t e).key eq
        (fun store => store.pushEntry t e flags)) :=
  internSpec_internWith hσ (fun _ => heq) rfl hr (fun _ => hlit) rfl
    (appended_pushEntry hσ.wellFormed)

/-- The shape of a constructor that keeps its data in the payload. -/
theorem internSpec_inline {tag : TypeTag} {p : Nat} {r : Row} {eq : Store → TypeId → Bool}
    (heq : σ.store.Decides eq r.key) (htag : tag.sideTable = none)
    (hrow : ofInline tag p = some r) (hr : r.Canonical σ.store) (hlit : r.Regular)
    (flags : TypeFlags) :
    InternSpec structuralHash regular σ r.key
      (σ.internWith structuralHash r.key eq (fun store => store.push tag flags p)) :=
  internSpec_internWith hσ (fun _ => heq) rfl hr (fun _ => hlit) rfl
    (appended_push hσ.wellFormed htag hrow)

theorem internSpec_internIntrinsic (kind : IntrinsicKind) :
    InternSpec structuralHash regular σ (.intrinsic kind) (σ.internIntrinsic structuralHash kind) := by
  refine internSpec_inline (r := .intrinsic kind) hσ (decides_intrinsic kind) rfl ?_ trivial trivial _
  cases kind <;> rfl

theorem internSpec_internLiteral {value : LiteralValue} (hvalue : regular → value.Regular) :
    InternSpec structuralHash regular σ (.literal value)
      (σ.internLiteral structuralHash value) := by
  refine internSpec_internWith (r := .literal value) hσ (fun hexact => ?_) rfl trivial hvalue rfl
    (appended_pushEntry (t := .literals) hσ.wellFormed)
  exact decides_entry (t := .literals) (e := value) (by decide) (fun id existing hrow =>
    LiteralValue.eq_iff (hσ.literals (hexact rfl) id _ hrow) (hvalue (hexact rfl)))

theorem internSpec_internTypeParam (id : TypeParamId) (name : String) :
    InternSpec structuralHash regular σ (.typeParam id) (σ.internTypeParam structuralHash id name) :=
  internSpec_internWith
    (r := .typeParam ⟨id, (σ.store.typeParamNames.get id).getD name⟩) hσ
    (fun _ => decides_typeParam id) rfl trivial (fun _ => trivial) rfl
      (appended_pushTypeParam hσ.wellFormed ⟨id, name⟩)

theorem internSpec_internInfer (index : Nat) :
    InternSpec structuralHash regular σ (.infer index) (σ.internInfer structuralHash index) :=
  internSpec_inline (r := .infer index) hσ
    (decides_inline rfl (fun q => by simp [ofInline])) rfl rfl trivial trivial _

end Plain

theorem objectPropsEq_iff : ∀ {xs ys : List PropertyType}, objectPropsEq xs ys = true ↔ xs = ys
  | [], [] | [], _ :: _ | _ :: _, [] => by simp [objectPropsEq]
  | x :: xs, y :: ys => by
    rcases x with ⟨⟩
    rcases y with ⟨⟩
    simp only [objectPropsEq, Bool.and_eq_true, beq_iff_eq, objectPropsEq_iff, List.cons.injEq,
      PropertyType.mk.injEq]
    tauto

theorem decides_objectEq (s : Store) (object : ObjectType) :
    s.Decides (objectEq object) object.key := by
  refine decides_entry (t := .objects) (e := object) (by decide) (fun id existing _ => ?_)
  change ObjectType at existing
  show _ ↔ @Eq ObjectType _ _
  rcases existing with ⟨⟩
  rcases object with ⟨⟩
  simp only [Bool.and_eq_true, beq_iff_eq, objectPropsEq_iff, ObjectType.mk.injEq]
  tauto

section Composite

variable (hσ : σ.Consed structuralHash regular)
include hσ

theorem internSpec_internObject (object : ObjectType) :
    InternSpec structuralHash regular σ object.canonical.key (σ.internObject structuralHash object) :=
  internSpec_entry (t := .objects) (e := object.canonical) hσ (decides_objectEq _ _)
    object.canonical_canonical trivial _

theorem internSpec_internFunction (function : FunctionType) :
    InternSpec structuralHash regular σ function.key (σ.internFunction structuralHash function) := by
  refine internSpec_entry (t := .functions) (e := function) hσ
    (decides_entry (by decide) (fun id existing _ => ?_)) trivial trivial _
  change FunctionType at existing
  show _ ↔ @Eq FunctionType _ _
  rcases existing with ⟨⟩
  rcases function with ⟨⟩
  simp only [Bool.and_eq_true, beq_iff_eq, FunctionType.mk.injEq]
  tauto

theorem internSpec_internArray (element : TypeId) :
    InternSpec structuralHash regular σ (.array element) (σ.internArray structuralHash element) :=
  internSpec_entry (t := .arrays) (e := element) hσ
    (decides_entry_eq (by decide) (fun id => beq_iff_eq)) trivial trivial _

theorem internSpec_internTupleType (tuple : TupleType) :
    InternSpec structuralHash regular σ (.tuple tuple) (σ.internTupleType structuralHash tuple) :=
  internSpec_entry (t := .tuples) (e := tuple) hσ
    (decides_entry (by decide) (fun id (existing : TupleType) _ => beq_iff_eq)) trivial trivial _

theorem internSpec_internReadonly (operand : TypeId) :
    InternSpec structuralHash regular σ (.readonly operand)
      (σ.internReadonly structuralHash operand) :=
  internSpec_inline (r := .readonly operand) hσ
    (decides_inline rfl (fun q => by simp [ofInline])) rfl rfl trivial trivial _

theorem internSpec_internConditional (conditional : ConditionalType) :
    InternSpec structuralHash regular σ conditional.key
      (σ.internConditional structuralHash conditional) := by
  refine internSpec_entry (t := .conditionals) (e := conditional) hσ
    (decides_entry (by decide) (fun id existing _ => ?_)) trivial trivial _
  change ConditionalType at existing
  show _ ↔ @Eq ConditionalType _ _
  rcases existing with ⟨⟩
  rcases conditional with ⟨⟩
  simp only [Bool.and_eq_true, beq_iff_eq, ConditionalType.mk.injEq]
  tauto

theorem internSpec_internInstantiation (base : TypeId) (args : List (TypeParamId × TypeId)) :
    InternSpec structuralHash regular σ (.instantiation base (sortArgs args))
      (σ.internInstantiation structuralHash base args) := by
  refine internSpec_entry (t := .instantiations) (e := ⟨base, sortArgs args⟩) hσ
    (decides_entry (by decide) (fun id existing _ => ?_)) trivial trivial _
  change InstantiationType at existing
  show _ ↔ @Eq InstantiationType _ _
  rcases existing with ⟨⟩
  simp only [Bool.and_eq_true, beq_iff_eq, InstantiationType.mk.injEq]

theorem internSpec_internClassInstance (classId : ClassId) (args : List TypeId) :
    InternSpec structuralHash regular σ (.classInstance classId args)
      (σ.internClassInstance structuralHash classId args) := by
  refine internSpec_entry (t := .classInstances) (e := ⟨classId, args⟩) hσ
    (decides_entry (by decide) (fun id existing _ => ?_)) trivial trivial _
  change ClassInstanceType at existing
  show _ ↔ @Eq ClassInstanceType _ _
  rcases existing with ⟨⟩
  simp only [Bool.and_eq_true, beq_iff_eq, ClassInstanceType.mk.injEq]

theorem internSpec_internDeferredIndexedAccess (object index : TypeId) :
    InternSpec structuralHash regular σ (.deferredIndexedAccess object index)
      (σ.internDeferredIndexedAccess structuralHash object index) := by
  refine internSpec_entry (t := .deferredIndexedAccesses) (e := ⟨object, index⟩) hσ
    (decides_entry (by decide) (fun id existing _ => ?_)) trivial trivial _
  change DeferredIndexedAccessType at existing
  show _ ↔ @Eq DeferredIndexedAccessType _ _
  rcases existing with ⟨⟩
  simp only [Bool.and_eq_true, beq_iff_eq, DeferredIndexedAccessType.mk.injEq]

theorem internSpec_internMapped (mapped : MappedType) :
    InternSpec structuralHash regular σ mapped.key (σ.internMapped structuralHash mapped) := by
  refine internSpec_entry (t := .mapped) (e := mapped) hσ
    (decides_entry (by decide) (fun id existing _ => ?_)) trivial trivial _
  change MappedType at existing
  show _ ↔ @Eq MappedType _ _
  rcases existing with ⟨⟩
  rcases mapped with ⟨⟩
  simp only [Bool.and_eq_true, beq_iff_eq, MappedType.mk.injEq]
  tauto

theorem internSpec_internKeyof (operand : TypeId) :
    InternSpec structuralHash regular σ (.keyof operand) (σ.internKeyof structuralHash operand) :=
  internSpec_inline (r := .keyof operand) hσ
    (decides_inline rfl (fun q => by simp [ofInline])) rfl rfl trivial trivial _

theorem internSpec_internTemplate (template : TemplateType) :
    InternSpec structuralHash regular σ (.template template.texts template.holes)
      (σ.internTemplate structuralHash template) := by
  refine internSpec_entry (t := .templates) (e := template) hσ
    (decides_entry (by decide) (fun id existing _ => ?_)) trivial trivial _
  change TemplateType at existing
  show _ ↔ @Eq TemplateType _ _
  rcases existing with ⟨⟩
  rcases template with ⟨⟩
  simp only [Bool.and_eq_true, beq_iff_eq, TemplateType.mk.injEq]

theorem internSpec_internMappedValue :
    InternSpec structuralHash regular σ .mappedValue (σ.internMappedValue structuralHash) :=
  internSpec_inline (r := .mappedValue) hσ (decides_mappedValue hσ.wellFormed) rfl rfl
    trivial trivial _

theorem internSpec_internUnion {members : List TypeId}
    (hmembers : σ.store.SetMembers .union members) :
    InternSpec structuralHash regular σ (.union members)
      (σ.internUnion structuralHash members) :=
  internSpec_entry (t := .unions) (e := members) hσ
    (decides_entry (by decide) (fun id (existing : List TypeId) _ => beq_iff_eq)) hmembers
    trivial _

theorem internSpec_internIntersection {members : List TypeId}
    (hmembers : σ.store.SetMembers .intersection members) :
    InternSpec structuralHash regular σ (.intersection members)
      (σ.internIntersection structuralHash members) :=
  internSpec_entry (t := .intersections) (e := members) hσ
    (decides_entry (by decide) (fun id (existing : List TypeId) _ => beq_iff_eq)) hmembers
    trivial _

end Composite

theorem dedupByKey_spec : ∀ {args : List (TypeParamId × TypeId)},
    args.Pairwise (fun a b => a.1 ≤ b.1) →
      ((dedupByKey args).map (fun entry => entry.1)).Pairwise (· < ·) ∧
        ∀ entry ∈ dedupByKey args, entry ∈ args := by
  intro args
  induction args with
  | nil => exact fun _ => ⟨List.Pairwise.nil, fun _ h => h⟩
  | cons entry rest ih =>
    intro hsorted
    obtain ⟨hle, hrest⟩ := List.pairwise_cons.mp hsorted
    obtain ⟨hstrict, hsub⟩ := ih hrest
    rw [dedupByKey]
    cases hkept : dedupByKey rest with
    | nil => simp
    | cons next kept =>
      rw [hkept] at hstrict hsub
      rw [List.map_cons, List.pairwise_cons] at hstrict
      have hnext : entry.1 ≤ next.1 := hle next (hsub next (by simp))
      dsimp only
      split
      · -- the earlier of two entries with one key stays
        rename_i heq
        refine ⟨?_, fun other hmem => ?_⟩
        · rw [List.map_cons, List.pairwise_cons, heq]
          exact hstrict
        · rcases List.mem_cons.mp hmem with rfl | hmem
          · simp
          · exact List.mem_cons_of_mem _ (hsub other (List.mem_cons_of_mem _ hmem))
      · rename_i hne
        have hlt : entry.1 < next.1 := lt_of_le_of_ne hnext hne
        refine ⟨?_, fun other hmem => ?_⟩
        · rw [List.map_cons, List.map_cons, List.pairwise_cons, List.pairwise_cons]
          refine ⟨fun key hkey => ?_, hstrict⟩
          rcases List.mem_cons.mp hkey with rfl | hkey
          · exact hlt
          · exact hlt.trans (hstrict.1 key hkey)
        · rcases List.mem_cons.mp hmem with rfl | hmem
          · simp
          · exact List.mem_cons_of_mem _ (hsub other hmem)

theorem pairwise_sortArgs (args : List (TypeParamId × TypeId)) :
    (sortArgs args).Pairwise (fun a b => a.1 ≤ b.1) := by
  have : Std.Total (fun a b : TypeParamId × TypeId => a.1 ≤ b.1) := ⟨fun a b => le_total a.1 b.1⟩
  have : IsTrans (TypeParamId × TypeId) (fun a b => a.1 ≤ b.1) := ⟨fun _ _ _ => le_trans⟩
  exact List.pairwise_insertionSort _ args

theorem internSpec_internDeclaredType (hσ : σ.Consed structuralHash regular)
    {recipe : DeclaredRecipeId} {body : DeclaredTypeRecipe}
    (hbody : σ.store.declaredRecipe recipe = some body) (mapper : List (TypeParamId × TypeId)) :
    InternSpec structuralHash regular σ (.declared recipe (canonicalMapper body mapper))
      (σ.internDeclaredType structuralHash ⟨recipe, canonicalMapper body mapper⟩) := by
  obtain ⟨hsorted, hsub⟩ := dedupByKey_spec (pairwise_sortArgs
    (mapper.filter (fun entry => decide (entry.1 ∈ body.freeParams))))
  refine internSpec_entry (t := .declaredTypes) (e := ⟨recipe, canonicalMapper body mapper⟩) hσ
    (decides_entry_eq (by decide) (fun id => beq_iff_eq)) ?_ trivial _
  refine ⟨body, hbody, hsorted, fun entry hmem => ?_⟩
  have hfiltered := (List.mem_insertionSort _).mp (hsub entry hmem)
  simpa using (List.mem_filter.mp hfiltered).2

end Constructors

/-! ## §5 Core steps -/

/-- The layers that an interner shares with its forks. -/
structure Layers where
  store : Store.Layers
  dedup : FxHashMap Nat (List TypeId)
  recipes : FxHashMap DeclaredTypeRecipe DeclaredRecipeId
  reserved : FxHashMap TypeId ReservedType

/-- The shared layers of an interner. -/
def layers (σ : Interner) : Layers :=
  ⟨σ.store.layers, σ.dedupBase, σ.declaredRecipeBase, σ.reservedTypesBase⟩

/-- What an operation can do to rows, reservations and buckets. -/
inductive CoreStep (structuralHash : StructuralKey → Nat) (regular : Prop) (σ : Interner) :
    Interner → Prop
  /-- a structural row is added -/
  | interned {σ' : Interner} {r : Row} : Interned structuralHash regular σ σ' r →
      CoreStep structuralHash regular σ σ'
  /-- a pending reservation is added -/
  | reserved {σ' : Interner} {r : Row} {kind : ReservedTypeKind} :
      Store.Appended σ.store σ'.store r → r.Canonical σ.store → r.reservedKind = some kind →
      σ' = { σ with
        store := σ'.store
        reservedTypes := σ.reservedTypes.insert σ.store.len ⟨kind, .pending⟩ } →
      CoreStep structuralHash regular σ σ'
  /-- a pending local reservation gets its body -/
  | filled {σ' : Interner} {id : TypeId} {r : Row} {kind : ReservedTypeKind} :
      σ.reservedTypes.lookup id = some ⟨kind, .pending⟩ → r.Canonical σ.store →
      r.reservedKind = some kind → Store.Replaced σ.store σ'.store id r →
      σ' = { σ with
        store := σ'.store
        reservedTypes := σ.reservedTypes.insert id ⟨kind, .frozen⟩ } →
      CoreStep structuralHash regular σ σ'
  /-- a frozen local object reservation becomes structural -/
  | promoted {σ' : Interner} {id : TypeId} {object : ObjectType} :
      σ.reservedTypes.lookup id = some ⟨.object, .frozen⟩ →
      σ.store.row id = some (.object object) →
      (∀ id' r', σ.Structural id' r' → r'.key ≠ object.key) →
      σ' = { σ with reservedTypes := σ.reservedTypes.erase id }.pushCandidate
        (structuralHash object.key) id →
      CoreStep structuralHash regular σ σ'
  /-- every row moves below the sealed base -/
  | resealed {σ' : Interner} : Store.Resealed σ.store σ'.store →
      (∀ hash, σ'.bucket hash = σ.bucket hash) →
      (∀ id, σ'.reservedType id = σ.reservedType id) → σ'.reservedTypes = ∅ →
      (∀ id reserved, σ'.reservedTypesBase.lookup id = some reserved →
        reserved.state = .frozen) →
      σ'.wellKnown = σ.wellKnown →
      (σ.store.tagColumn.sealed = true → σ'.layers = σ.layers) →
      CoreStep structuralHash regular σ σ'
  /-- caches and side columns change -/
  | side {σ' : Interner} : (∀ id, σ'.store.row id = σ.store.row id) →
      (∀ id recipe, σ.store.declaredRecipe id = some recipe →
        σ'.store.declaredRecipe id = some recipe) →
      (∀ id recipe, σ'.store.declaredRecipe id = some recipe →
        σ.store.declaredRecipe id = some recipe ∨ recipe.freeParams.Pairwise (· < ·)) →
      σ'.store.baseLen = σ.store.baseLen → σ'.store.WellFormed →
      (∀ hash, σ'.bucket hash = σ.bucket hash) → σ'.reservedTypesBase = σ.reservedTypesBase →
      σ'.reservedTypes = σ.reservedTypes → σ'.wellKnown = σ.wellKnown → σ'.layers = σ.layers →
      CoreStep structuralHash regular σ σ'

/-! ### Reading buckets and reservations -/

theorem bucket_pushCandidate (σ : Interner) (h hash : Nat) (id : TypeId) :
    (σ.pushCandidate h id).bucket hash
      = if hash = h then σ.bucket hash ++ [id] else σ.bucket hash := by
  unfold bucket pushCandidate
  by_cases heq : hash = h
  · subst heq
    simp
  · simp [heq, Finmap.lookup_insert_of_ne]

theorem reservedType_eq_none_iff {σ : Interner} {id : TypeId} :
    σ.reservedType id = none ↔
      σ.reservedTypesBase.lookup id = none ∧ σ.reservedTypes.lookup id = none := by
  simp [reservedType]

section Preservation

variable {σ σ' : Interner}

theorem Structural.not_reserved {id : TypeId} {r : Row} {reserved : ReservedType}
    (h : σ.Structural id r) (hreserved : σ.reservedType id = some reserved) : False := by
  have hnone := h.2
  rw [hreserved] at hnone
  cases hnone

/-- Appending keeps tags and recipes, so it keeps canonical rows canonical. -/
theorem canonical_of_appended {s s' : Store} {r r' : Row} (hs : s.WellFormed)
    (happ : Store.Appended s s' r) (hr : r'.Canonical s) : r'.Canonical s' := by
  refine hr.mono (fun id tag htag => ?_) (fun id recipe hrecipe => ?_)
  · have hlt : id < s.len := by
      rw [← tag_isSome_iff, htag]
      rfl
    obtain ⟨old, hold⟩ := hs.row_isSome hlt
    rw [← happ.row_old id hlt.ne] at hold
    rw [tag_of_row hold]
    rw [happ.row_old id hlt.ne] at hold
    rw [← tag_of_row hold, htag]
  · rw [declaredRecipe, happ.recipes_eq]
    exact hrecipe

variable (hσ : σ.Consed structuralHash regular)
include hσ

theorem Consed.lt_of_reserved {id : TypeId} {reserved : ReservedType}
    (h : σ.reservedType id = some reserved) : id < σ.store.len := by
  obtain ⟨r, hr, _⟩ := hσ.reserved_row id reserved h
  exact hσ.wellFormed.lt_of_row hr

theorem Consed.reservedType_len :
    σ.reservedType σ.store.len = none := by
  by_contra h
  obtain ⟨reserved, hreserved⟩ := ne_none_iff_exists'.mp h
  exact absurd (hσ.lt_of_reserved hreserved) (lt_irrefl _)

theorem Structural.ne_len {id : TypeId} {r : Row} (h : σ.Structural id r) : id ≠ σ.store.len :=
  (hσ.wellFormed.lt_of_row h.1).ne

/-- A local reservation is not sealed. -/
theorem Consed.reservedBase_of_local {id : TypeId} {reserved : ReservedType}
    (h : σ.reservedTypes.lookup id = some reserved) :
    σ.reservedTypesBase.lookup id = none := by
  by_contra hbase
  obtain ⟨sealedType, hsealed⟩ := ne_none_iff_exists'.mp hbase
  have hlt := (hσ.reserved_base id sealedType hsealed).1
  have hle := hσ.reserved_local id (Finmap.mem_of_lookup_eq_some h)
  exact absurd hlt (not_lt.mpr hle)

theorem Consed.reservedType_of_local {id : TypeId} {reserved : ReservedType}
    (h : σ.reservedTypes.lookup id = some reserved) :
    σ.reservedType id = some reserved := by
  simp [reservedType, hσ.reservedBase_of_local h, h]

/-! ### One step -/

/-- The structural rows after a row was added. -/
theorem Interned.structural_iff {r : Row} (h : Interned structuralHash regular σ σ' r) (id : TypeId)
    (r' : Row) :
    σ'.Structural id r' ↔ (id = σ.store.len ∧ r' = r) ∨ σ.Structural id r' := by
  have hreserved : σ'.reservedType id = σ.reservedType id := by
    rw [h.rest_eq]
    rfl
  unfold Structural
  rw [hreserved]
  by_cases hid : id = σ.store.len
  · subst hid
    rw [h.appended.row_new, hσ.reservedType_len, σ.store.row_eq_none_of_le le_rfl]
    simp [eq_comm]
  · rw [h.appended.row_old id hid]
    simp [hid]

/-- The part of the invariant that is about structural rows and their buckets. -/
structure Bucketed (structuralHash : StructuralKey → Nat) (regular : Prop) (σ : Interner) :
    Prop where
  mem_bucket : ∀ hash id, id ∈ σ.bucket hash ↔
    ∃ r, σ.Structural id r ∧ structuralHash r.key = hash
  nodup_bucket : ∀ hash, (σ.bucket hash).Nodup
  unique : ∀ id id' r r', r.tag.Exact regular → σ.Structural id r →
    σ.Structural id' r' → r.key = r'.key → id = id'

theorem Consed.bucketed_of_same (hbucket : ∀ hash, σ'.bucket hash = σ.bucket hash)
    (hstruct : ∀ id r, σ'.Structural id r ↔ σ.Structural id r) :
    Bucketed structuralHash regular σ' where
  mem_bucket := by
    intro hash id
    simp only [hbucket, hstruct]
    exact hσ.mem_bucket hash id
  nodup_bucket := by
    intro hash
    rw [hbucket]
    exact hσ.nodup_bucket hash
  unique id id' r₁ r₂ hexact h₁ h₂ :=
    hσ.unique id id' r₁ r₂ hexact ((hstruct _ _).mp h₁) ((hstruct _ _).mp h₂)

/-- A new structural row becomes the last candidate of its bucket. -/
theorem Consed.bucketed_of_pushed {id : TypeId} {r : Row}
    (hbucket : ∀ hash, σ'.bucket hash
      = if hash = structuralHash r.key then σ.bucket hash ++ [id] else σ.bucket hash)
    (hstruct : ∀ id' r', σ'.Structural id' r' ↔ (id' = id ∧ r' = r) ∨ σ.Structural id' r')
    (hnot : ∀ r', ¬ σ.Structural id r')
    (hfresh : r.tag.Exact regular → ∀ id' r', σ.Structural id' r' → r'.key ≠ r.key) :
    Bucketed structuralHash regular σ' where
  mem_bucket := by
    intro hash id'
    rw [hbucket]
    simp only [hstruct]
    constructor
    · intro hmem
      split at hmem
      · rename_i heq
        rcases List.mem_append.mp hmem with hmem | hmem
        · obtain ⟨r', hr', hhash⟩ := (hσ.mem_bucket _ _).mp hmem
          exact ⟨r', .inr hr', hhash⟩
        · exact ⟨r, .inl ⟨List.mem_singleton.mp hmem, rfl⟩, heq.symm⟩
      · obtain ⟨r', hr', hhash⟩ := (hσ.mem_bucket _ _).mp hmem
        exact ⟨r', .inr hr', hhash⟩
    · rintro ⟨r', ⟨rfl, rfl⟩ | hr', rfl⟩
      · simp
      · have hmem := (hσ.mem_bucket _ _).mpr ⟨r', hr', rfl⟩
        split
        · exact List.mem_append_left _ hmem
        · exact hmem
  nodup_bucket := by
    intro hash
    rw [hbucket]
    split
    · refine List.nodup_append.mpr ⟨hσ.nodup_bucket hash, List.nodup_singleton _, ?_⟩
      rintro a ha b hb rfl
      obtain ⟨r', hr', _⟩ := (hσ.mem_bucket _ _).mp ha
      exact hnot r' (List.mem_singleton.mp hb ▸ hr')
    · exact hσ.nodup_bucket hash
  unique := by
    intro id₁ id₂ r₁ r₂ hexact h₁ h₂ hkey
    rcases (hstruct _ _).mp h₁ with ⟨rfl, rfl⟩ | h₁
    · rcases (hstruct _ _).mp h₂ with ⟨rfl, rfl⟩ | h₂
      · rfl
      · exact absurd hkey.symm (hfresh hexact id₂ r₂ h₂)
    · rcases (hstruct _ _).mp h₂ with ⟨rfl, rfl⟩ | h₂
      · rw [← tag_key, hkey, tag_key] at hexact
        exact absurd hkey (hfresh hexact id₁ r₁ h₁)
      · exact hσ.unique id₁ id₂ r₁ r₂ hexact h₁ h₂ hkey

theorem Consed.interned {r : Row} (h : Interned structuralHash regular σ σ' r) :
    σ'.Consed structuralHash regular := by
  have hreserved : ∀ id, σ'.reservedType id = σ.reservedType id := by
    intro id
    rw [h.rest_eq]
    rfl
  have hbucket : ∀ hash, σ'.bucket hash
      = if hash = structuralHash r.key then σ.bucket hash ++ [σ.store.len] else σ.bucket hash := by
    intro hash
    rw [← bucket_pushCandidate, h.rest_eq]
    rfl
  have hbucketed := hσ.bucketed_of_pushed hbucket (h.structural_iff hσ)
    (fun r' hr' => Structural.ne_len hσ hr' rfl) h.fresh
  refine
    { hbucketed with
      wellFormed := h.appended.wellFormed
      canonical := fun id r' hr' => ?_
      recipes := fun id recipe hrecipe => ?_
      literals := fun hreg id r' hr' => ?_
      reserved_row := fun id reserved hres => ?_
      reserved_base := fun id reserved hres => ?_
      reserved_local := fun id hres => ?_ }
  · by_cases hid : id = σ.store.len
    · subst hid
      rw [h.appended.row_new, some.injEq] at hr'
      exact canonical_of_appended hσ.wellFormed h.appended (hr' ▸ h.canonical)
    · rw [h.appended.row_old id hid] at hr'
      exact canonical_of_appended hσ.wellFormed h.appended (hσ.canonical id r' hr')
  · rw [declaredRecipe, h.appended.recipes_eq] at hrecipe
    exact hσ.recipes id recipe hrecipe
  · by_cases hid : id = σ.store.len
    · subst hid
      rw [h.appended.row_new, some.injEq] at hr'
      exact hr' ▸ h.literal hreg
    · rw [h.appended.row_old id hid] at hr'
      exact hσ.literals hreg id r' hr'
  · rw [hreserved] at hres
    rw [h.appended.row_old id (hσ.lt_of_reserved hres).ne]
    exact hσ.reserved_row id reserved hres
  · have hbase : σ'.reservedTypesBase = σ.reservedTypesBase := by rw [h.rest_eq]; rfl
    rw [hbase] at hres
    rw [h.appended.baseLen_eq]
    exact hσ.reserved_base id reserved hres
  · have hlocal : σ'.reservedTypes = σ.reservedTypes := by rw [h.rest_eq]; rfl
    rw [hlocal] at hres
    rw [h.appended.baseLen_eq]
    exact hσ.reserved_local id hres

/-- One reserved row that is no structural row is written, or its reservation changes state. -/
theorem Consed.of_reserved_row {id : TypeId} {r : Row}
    {kind : ReservedTypeKind} {state : ReservedTypeState} (hkind : r.reservedKind = some kind)
    (hr : r.Canonical σ.store) (hwf : σ'.store.WellFormed) (hrow : σ'.store.row id = some r)
    (hrows : ∀ id', id' ≠ id → σ'.store.row id' = σ.store.row id')
    (hcanonical : ∀ r' : Row, r'.Canonical σ.store → r'.Canonical σ'.store)
    (hrecipes : σ'.store.declaredRecipes = σ.store.declaredRecipes)
    (hbaseLen : σ'.store.baseLen = σ.store.baseLen) (hle : σ.store.baseLen ≤ id)
    (hopen : σ.reservedTypesBase.lookup id = none) (hnot : ∀ r', ¬ σ.Structural id r')
    (hrest : σ' = { σ with
      store := σ'.store
      reservedTypes := σ.reservedTypes.insert id ⟨kind, state⟩ }) :
    σ'.Consed structuralHash regular := by
  have hbase : σ'.reservedTypesBase = σ.reservedTypesBase := by rw [hrest]
  have hlocal : σ'.reservedTypes = σ.reservedTypes.insert id ⟨kind, state⟩ := by rw [hrest]
  have hbucket : ∀ hash, σ'.bucket hash = σ.bucket hash := by
    intro hash
    rw [hrest]
    rfl
  have hnew : σ'.reservedType id = some ⟨kind, state⟩ := by
    simp [reservedType, hbase, hlocal, hopen]
  have hold : ∀ id', id' ≠ id → σ'.reservedType id' = σ.reservedType id' := by
    intro id' hid
    simp [reservedType, hbase, hlocal, Finmap.lookup_insert_of_ne _ hid]
  -- the new row is reserved, so no structural row changes
  have hstruct : ∀ id' r', σ'.Structural id' r' ↔ σ.Structural id' r' := by
    intro id' r'
    by_cases hid : id' = id
    · subst hid
      exact iff_of_false (fun h => h.not_reserved hnew) (hnot r')
    · simp only [Structural, hold id' hid, hrows id' hid]
  refine
    { hσ.bucketed_of_same hbucket hstruct with
      wellFormed := hwf
      canonical := fun id' r' hr' => ?_
      recipes := fun id' recipe hrecipe => ?_
      literals := fun hreg id' r' hr' => ?_
      reserved_row := fun id' reserved hres => ?_
      reserved_base := fun id' reserved hres => ?_
      reserved_local := fun id' hres => ?_ }
  · by_cases hid : id' = id
    · subst hid
      rw [hrow, some.injEq] at hr'
      exact hr' ▸ hr.of_reservedKind hkind
    · rw [hrows id' hid] at hr'
      exact hcanonical r' (hσ.canonical id' r' hr')
  · rw [declaredRecipe, hrecipes] at hrecipe
    exact hσ.recipes id' recipe hrecipe
  · by_cases hid : id' = id
    · subst hid
      rw [hrow, some.injEq] at hr'
      exact hr' ▸ regular_of_reservedKind hkind
    · rw [hrows id' hid] at hr'
      exact hσ.literals hreg id' r' hr'
  · by_cases hid : id' = id
    · subst hid
      rw [hnew, some.injEq] at hres
      exact ⟨r, hrow, by rw [hkind, ← hres]⟩
    · rw [hold id' hid] at hres
      rw [hrows id' hid]
      exact hσ.reserved_row id' reserved hres
  · rw [hbase] at hres
    rw [hbaseLen]
    exact hσ.reserved_base id' reserved hres
  · rw [hbaseLen]
    rw [hlocal, Finmap.mem_insert] at hres
    rcases hres with rfl | hres
    · exact hle
    · exact hσ.reserved_local id' hres

theorem Consed.reserved {r : Row} {kind : ReservedTypeKind}
    (happ : Store.Appended σ.store σ'.store r) (hr : r.Canonical σ.store)
    (hkind : r.reservedKind = some kind)
    (hrest : σ' = { σ with
      store := σ'.store
      reservedTypes := σ.reservedTypes.insert σ.store.len ⟨kind, .pending⟩ }) :
    σ'.Consed structuralHash regular := by
  apply hσ.of_reserved_row hkind hr happ.wellFormed happ.row_new happ.row_old
  · exact fun r' hr' => canonical_of_appended hσ.wellFormed happ hr'
  · exact happ.recipes_eq
  · exact happ.baseLen_eq
  · exact baseLen_le_len σ.store
  · exact (reservedType_eq_none_iff.mp hσ.reservedType_len).1
  · exact fun r' hr' => Structural.ne_len hσ hr' rfl
  · exact hrest

theorem Consed.filled {id : TypeId} {r : Row}
    {kind : ReservedTypeKind} (hpending : σ.reservedTypes.lookup id = some ⟨kind, .pending⟩)
    (hr : r.Canonical σ.store) (hkind : r.reservedKind = some kind)
    (hrep : Store.Replaced σ.store σ'.store id r)
    (hrest : σ' = { σ with
      store := σ'.store
      reservedTypes := σ.reservedTypes.insert id ⟨kind, .frozen⟩ }) :
    σ'.Consed structuralHash regular := by
  apply hσ.of_reserved_row hkind hr hrep.wellFormed hrep.row_new hrep.row_old
  · intro r' hr'
    refine hr'.mono (fun id tag htag => ?_) (fun id recipe hrecipe => ?_)
    · rw [hrep.tag_eq]
      exact htag
    · rw [declaredRecipe, hrep.recipes_eq]
      exact hrecipe
  · exact hrep.recipes_eq
  · exact hrep.baseLen_eq
  · exact hσ.reserved_local id (Finmap.mem_of_lookup_eq_some hpending)
  · exact hσ.reservedBase_of_local hpending
  · exact fun r' hr' => hr'.not_reserved (hσ.reservedType_of_local hpending)
  · exact hrest

theorem Consed.promoted {id : TypeId} {object : ObjectType}
    (hfrozen : σ.reservedTypes.lookup id = some ⟨.object, .frozen⟩)
    (hrow : σ.store.row id = some (.object object))
    (hfresh : ∀ id' r', σ.Structural id' r' → r'.key ≠ object.key)
    (hrest : σ' = { σ with reservedTypes := σ.reservedTypes.erase id }.pushCandidate
      (structuralHash object.key) id) :
    σ'.Consed structuralHash regular := by
  have hstore : σ'.store = σ.store := by rw [hrest]; rfl
  have hbase : σ'.reservedTypesBase = σ.reservedTypesBase := by rw [hrest]; rfl
  have hlocal : σ'.reservedTypes = σ.reservedTypes.erase id := by rw [hrest]; rfl
  have hbucket : ∀ hash, σ'.bucket hash
      = if hash = structuralHash object.key then σ.bucket hash ++ [id] else σ.bucket hash := by
    intro hash
    rw [hrest, bucket_pushCandidate]
    rfl
  have hnew : σ'.reservedType id = none := by
    simp [reservedType, hbase, hlocal, hσ.reservedBase_of_local hfrozen]
  have hold : ∀ id', id' ≠ id → σ'.reservedType id' = σ.reservedType id' := by
    intro id' hid
    simp [reservedType, hbase, hlocal, Finmap.lookup_erase_ne hid]
  have hstruct : ∀ id' r', σ'.Structural id' r' ↔
      (id' = id ∧ r' = .object object) ∨ σ.Structural id' r' := by
    intro id' r'
    by_cases hid : id' = id
    · subst hid
      simp [Structural, hnew, hstore, hrow, hσ.reservedType_of_local hfrozen, eq_comm]
    · simp [Structural, hold id' hid, hstore, hid]
  have hbucketed := hσ.bucketed_of_pushed (r := .object object) hbucket hstruct
    (fun r' hr' => hr'.not_reserved (hσ.reservedType_of_local hfrozen)) (fun _ => hfresh)
  refine
    { hbucketed with
      wellFormed := by rw [hstore]; exact hσ.wellFormed
      canonical := by rw [hstore]; exact hσ.canonical
      recipes := by rw [hstore]; exact hσ.recipes
      literals := fun hreg id' r' hr' => hσ.literals hreg id' r' (hstore ▸ hr')
      reserved_row := fun id' reserved hres => ?_
      reserved_base := fun id' reserved hres => ?_
      reserved_local := fun id' hres => ?_ }
  · have hid : id' ≠ id := by
      rintro rfl
      rw [hnew] at hres
      cases hres
    rw [hold id' hid] at hres
    rw [hstore]
    exact hσ.reserved_row id' reserved hres
  · rw [hbase] at hres
    rw [hstore]
    exact hσ.reserved_base id' reserved hres
  · rw [hlocal, Finmap.mem_erase] at hres
    rw [hstore]
    exact hσ.reserved_local id' hres.2

theorem Consed.of_same_rows
    (hrow : ∀ id, σ'.store.row id = σ.store.row id) (hwf : σ'.store.WellFormed)
    (hold : ∀ id recipe, σ.store.declaredRecipe id = some recipe →
      σ'.store.declaredRecipe id = some recipe)
    (hnew : ∀ id recipe, σ'.store.declaredRecipe id = some recipe →
      σ.store.declaredRecipe id = some recipe ∨ recipe.freeParams.Pairwise (· < ·))
    (hbucket : ∀ hash, σ'.bucket hash = σ.bucket hash)
    (hreserved : ∀ id, σ'.reservedType id = σ.reservedType id)
    (hbase : ∀ id reserved, σ'.reservedTypesBase.lookup id = some reserved →
      id < σ'.store.baseLen ∧ reserved.state = .frozen)
    (hlocal : ∀ id, id ∈ σ'.reservedTypes → σ'.store.baseLen ≤ id) :
    σ'.Consed structuralHash regular := by
  have hstruct : ∀ id r', σ'.Structural id r' ↔ σ.Structural id r' := by
    intro id r'
    simp only [Structural, hrow, hreserved]
  exact
    { hσ.bucketed_of_same hbucket hstruct with
      wellFormed := hwf
      canonical := by
        intro id r' hr'
        refine (hσ.canonical id r' (hrow id ▸ hr')).mono (fun id' tag htag => ?_) hold
        have hlt : id' < σ.store.len := by
          rw [← tag_isSome_iff, htag]
          rfl
        obtain ⟨r₀, hr₀⟩ := hσ.wellFormed.row_isSome hlt
        rw [tag_of_row ((hrow id').trans hr₀), ← tag_of_row hr₀, htag]
      recipes := by
        intro id recipe hrecipe
        rcases hnew id recipe hrecipe with h | h
        · exact hσ.recipes id recipe h
        · exact h
      literals := fun hreg id r' hr' => hσ.literals hreg id r' (hrow id ▸ hr')
      reserved_row := by
        intro id reserved hres
        rw [hreserved] at hres
        rw [hrow]
        exact hσ.reserved_row id reserved hres
      reserved_base := hbase
      reserved_local := hlocal }

/-- **Every step keeps the invariant.** -/
theorem Consed.step (h : CoreStep structuralHash regular σ σ') :
    σ'.Consed structuralHash regular := by
  cases h with
  | interned h => exact hσ.interned h
  | reserved happ hr hkind hrest => exact hσ.reserved happ hr hkind hrest
  | filled hpending hr hkind hrep hrest => exact hσ.filled hpending hr hkind hrep hrest
  | promoted hfrozen hrow hfresh hrest => exact hσ.promoted hfrozen hrow hfresh hrest
  | resealed hresealed hbucket hreserved hlocal hfrozen _ _ =>
    refine hσ.of_same_rows hresealed.row_eq hresealed.wellFormed
      (fun id recipe h => (hresealed.recipes_eq id).trans h)
      (fun id recipe h => .inl ((hresealed.recipes_eq id).symm.trans h)) hbucket hreserved ?_ ?_
    · intro id reserved hres
      refine ⟨?_, hfrozen id reserved hres⟩
      have hres' : σ.reservedType id = some reserved := by
        rw [← hreserved, reservedType, hres]
        rfl
      rw [hresealed.baseLen_eq]
      exact hσ.lt_of_reserved hres'
    · intro id hmem
      rw [hlocal] at hmem
      exact absurd hmem Finmap.notMem_empty
  | side hrow hold hnew hbaseLen hwf hbucket hbase hlocal _ _ =>
    refine hσ.of_same_rows hrow hwf hold hnew hbucket ?_ ?_ ?_
    · intro id
      simp only [reservedType, hbase, hlocal]
    · intro id reserved hres
      rw [hbaseLen]
      exact hσ.reserved_base id reserved (hbase ▸ hres)
    · intro id hmem
      rw [hbaseLen]
      exact hσ.reserved_local id (hlocal ▸ hmem)

end Preservation

end Interner

end Typokat.Types
