import Mathlib.Data.Finmap
import Mathlib.Data.List.Sort

/-!
# Type Representation (`typokat-types/src/types/repr.rs`)

The tags, payload structures and literal values that the arena stores.  Every
handle (`TypeId`, `TypeParamId`, `ClassId`, `DeclaredRecipeId`) is an index, so it
is a natural number here; the arena never allocates anywhere near `2 ^ 32` rows and
no modelled operation does arithmetic on a handle.

Hash maps and hash sets are finite maps and finite sets: what a lookup answers never
depends on the iteration order, and the few loops over a map take the order in which
the map yields its entries as a list.
-/

namespace Typokat.Types

/-- `FxHashMap`: a finite map. -/
abbrev FxHashMap (K V : Type) := Finmap (fun _ : K => V)

/-- `FxHashMap::is_empty`. -/
def FxHashMap.isEmpty {K V : Type} [DecidableEq K] (map : FxHashMap K V) : Bool :=
  decide (map.keys = ∅)

theorem FxHashMap.isEmpty_iff {K V : Type} [DecidableEq K] (map : FxHashMap K V) :
    FxHashMap.isEmpty map = true ↔ map = ∅ := by
  simp only [FxHashMap.isEmpty, decide_eq_true_eq]
  constructor
  · intro h
    refine Finmap.ext_lookup (fun key => ?_)
    rw [Finmap.lookup_empty, Finmap.lookup_eq_none, ← Finmap.mem_keys, h]
    simp
  · rintro rfl
    exact Finmap.keys_empty

@[simp] theorem FxHashMap.isEmpty_empty {K V : Type} [DecidableEq K] :
    FxHashMap.isEmpty (∅ : FxHashMap K V) = true := (isEmpty_iff _).mpr rfl

/-- `FxHashSet`: a finite set. -/
abbrev FxHashSet (K : Type) := Finset K

namespace FxHashSet

/-- The elements of a set of handles in ascending order: `collect` and `sort_unstable`. -/
def sorted (set : FxHashSet Nat) : List Nat :=
  Quot.liftOn set.val (fun elements => elements.insertionSort (· ≤ ·)) (by
    intro xs ys h
    exact ((List.perm_insertionSort _ xs).trans
      (h.trans (List.perm_insertionSort _ ys).symm)).eq_of_pairwise'
        (List.pairwise_insertionSort _ xs) (List.pairwise_insertionSort _ ys))

theorem exists_sorted_eq (set : FxHashSet Nat) :
    ∃ xs : List Nat, xs.Nodup ∧ (∀ n, n ∈ xs ↔ n ∈ set) ∧
      sorted set = xs.insertionSort (· ≤ ·) := by
  rcases set with ⟨elements, hnodup⟩
  induction elements using Quot.inductionOn with
  | _ xs => exact ⟨xs, hnodup, fun n => Iff.rfl, rfl⟩

@[simp] theorem mem_sorted {set : FxHashSet Nat} {n : Nat} : n ∈ sorted set ↔ n ∈ set := by
  obtain ⟨xs, _, hmem, heq⟩ := exists_sorted_eq set
  rw [heq, List.mem_insertionSort, hmem]

theorem pairwise_sorted (set : FxHashSet Nat) : (sorted set).Pairwise (· ≤ ·) := by
  obtain ⟨xs, _, _, heq⟩ := exists_sorted_eq set
  rw [heq]
  exact List.pairwise_insertionSort _ xs

theorem nodup_sorted (set : FxHashSet Nat) : (sorted set).Nodup := by
  obtain ⟨xs, hnodup, _, heq⟩ := exists_sorted_eq set
  rw [heq]
  exact (List.perm_insertionSort _ xs).nodup_iff.mpr hnodup

end FxHashSet

/-- The entries of a map with handle keys, in ascending key order. -/
def FxHashMap.sortedEntries {V : Type} (map : FxHashMap Nat V) : List (Nat × V) :=
  (FxHashSet.sorted map.keys).filterMap
    (fun key => (map.lookup key).map (fun value => (key, value)))

@[simp] theorem FxHashMap.mem_sortedEntries {V : Type} {map : FxHashMap Nat V} {key : Nat}
    {value : V} : (key, value) ∈ FxHashMap.sortedEntries map ↔ map.lookup key = some value := by
  simp only [FxHashMap.sortedEntries, List.mem_filterMap, FxHashSet.mem_sorted, Finmap.mem_keys,
    Option.map_eq_some_iff, Prod.mk.injEq]
  constructor
  · rintro ⟨k, _, v, hv, rfl, rfl⟩
    exact hv
  · intro h
    exact ⟨key, Finmap.mem_of_lookup_eq_some h, value, h, rfl, rfl⟩

/-- A map is determined by its entries. -/
theorem FxHashMap.sortedEntries_injective {V : Type} :
    Function.Injective (FxHashMap.sortedEntries (V := V)) := by
  intro m m' h
  refine Finmap.ext_lookup (fun key => ?_)
  refine Option.ext (fun value => ?_)
  rw [← FxHashMap.mem_sortedEntries, ← FxHashMap.mem_sortedEntries, h]

/-! ## §1 Handles -/

abbrev TypeId := Nat
abbrev TypeParamId := Nat
abbrev ClassId := Nat
abbrev DeclaredRecipeId := Nat

/-! ## §2 Tags and intrinsics -/

/-- Discriminant of an arena row; it selects the side table `payload` indexes. -/
inductive TypeTag
  | intrinsic | literal | object | union | intersection | function | typeParam
  | array | tuple | readonly | conditional | instantiation | infer | mapped
  | mappedValue | template | keyof | classInstance | deferredIndexedAccess | declared
  deriving DecidableEq, Repr

/-- The fixed intrinsic set, in canonical interning order. -/
inductive IntrinsicKind
  | error | any | unknown | never | void | null | undefined | boolean | number | string
  | uppercase | lowercase | capitalize | uncapitalize | thisType | omitThisParameter
  | object | bigInt | symbol
  deriving DecidableEq, Repr

/-- `IntrinsicKind::ALL`. -/
def IntrinsicKind.all : List IntrinsicKind :=
  [.error, .any, .unknown, .never, .void, .null, .undefined, .boolean, .number, .string,
   .uppercase, .lowercase, .capitalize, .uncapitalize, .thisType, .omitThisParameter,
   .object, .bigInt, .symbol]

/-- The discriminant `kind as u32`: the position in `IntrinsicKind.all`. -/
def IntrinsicKind.discriminant (kind : IntrinsicKind) : Nat :=
  IntrinsicKind.all.idxOf kind

theorem IntrinsicKind.mem_all (kind : IntrinsicKind) : kind ∈ IntrinsicKind.all := by
  cases kind <;> decide

/-- Packed per-type flag word; only `CONTAINS_ERROR` is ever set. -/
structure TypeFlags where
  bits : Nat
  deriving DecidableEq, Repr

def TypeFlags.empty : TypeFlags := ⟨0⟩
def TypeFlags.containsError : TypeFlags := ⟨1⟩

/-! ## §3 Literal values -/

/-- An IEEE-754 double, kept as its bit pattern (`f64::to_bits`). -/
structure F64 where
  bits : BitVec 64
  deriving DecidableEq, Repr

/-- All exponent bits set and a non-zero fraction. -/
def F64.isNaN (x : F64) : Bool :=
  x.bits.extractLsb' 52 11 == 0x7FF#11 && x.bits.extractLsb' 0 52 != 0#52

/-- `+0.0` or `-0.0`. -/
def F64.isZero (x : F64) : Bool :=
  x.bits.extractLsb' 0 63 == 0#63

/-- `-0.0`. -/
def F64.isNegZero (x : F64) : Bool :=
  x.isZero && x.bits.msb

/-- `PartialEq for f64`: `NaN` differs from itself and the two zeros are equal. -/
def F64.eq (x y : F64) : Bool :=
  !x.isNaN && !y.isNaN && (x.bits == y.bits || (x.isZero && y.isZero))

/-- A well-known ECMAScript symbol; the declaration order is the sort order. -/
inductive WellKnownSymbol
  | iterator | toStringTag | asyncIterator | species | toPrimitive | replace
  | unscopables | split | search | match | matchAll | hasInstance
  deriving DecidableEq, Repr

/-- The derived `Ord` compares declaration positions. -/
def WellKnownSymbol.index : WellKnownSymbol → Nat
  | .iterator => 0 | .toStringTag => 1 | .asyncIterator => 2 | .species => 3
  | .toPrimitive => 4 | .replace => 5 | .unscopables => 6 | .split => 7
  | .search => 8 | .match => 9 | .matchAll => 10 | .hasInstance => 11

/-- A literal type's value. -/
inductive LiteralValue
  | number (n : F64)
  | string (s : String)
  | boolean (b : Bool)
  | wellKnownSymbol (symbol : WellKnownSymbol)
  deriving DecidableEq, Repr

/-- The derived `PartialEq`, which compares numbers as `f64` does. -/
def LiteralValue.eq : LiteralValue → LiteralValue → Bool
  | .number a, .number b => F64.eq a b
  | .string a, .string b => a == b
  | .boolean a, .boolean b => a == b
  | .wellKnownSymbol a, .wellKnownSymbol b => a == b
  | _, _ => false

/-- The intrinsic base type a literal widens to. -/
def LiteralValue.baseKind : LiteralValue → IntrinsicKind
  | .number _ => .number
  | .string _ => .string
  | .boolean _ => .boolean
  | .wellKnownSymbol _ => .symbol

/-- A literal that is neither `NaN` nor `-0`. -/
def LiteralValue.Regular : LiteralValue → Prop
  | .number n => n.isNaN = false ∧ n.isNegZero = false
  | _ => True

instance (v : LiteralValue) : Decidable v.Regular := by
  cases v <;> unfold LiteralValue.Regular <;> infer_instance

/-- The only zero that is not `-0` is the all-zero pattern. -/
theorem F64.bits_eq_zero {x : F64} (hzero : x.isZero = true) (hneg : x.isNegZero = false) :
    x.bits = 0#64 := by
  have hmsb : x.bits.msb = false := by
    simpa [F64.isNegZero, hzero] using hneg
  have hlow : x.bits.toNat % 2 ^ 63 = 0 := by
    have := congrArg BitVec.toNat (beq_iff_eq.mp hzero)
    simpa [BitVec.extractLsb'_toNat] using this
  have hlt : x.bits.toNat < 2 ^ 63 := BitVec.toNat_lt_of_msb_false hmsb
  refine BitVec.eq_of_toNat_eq ?_
  rw [Nat.mod_eq_of_lt hlt] at hlow
  simpa using hlow

theorem F64.eq_iff {x y : F64} (hx : x.isNaN = false ∧ x.isNegZero = false)
    (hy : y.isNaN = false ∧ y.isNegZero = false) : F64.eq x y = true ↔ x = y := by
  rcases x with ⟨xbits⟩
  rcases y with ⟨ybits⟩
  simp only [F64.eq, hx.1, hy.1, Bool.not_false, Bool.true_and, Bool.or_eq_true, beq_iff_eq,
    Bool.and_eq_true, F64.mk.injEq]
  constructor
  · rintro (h | ⟨hx0, hy0⟩)
    · exact h
    · exact (F64.bits_eq_zero hx0 hx.2).trans (F64.bits_eq_zero hy0 hy.2).symm
  · exact .inl
theorem LiteralValue.eq_iff {a b : LiteralValue} (ha : a.Regular) (hb : b.Regular) :
    LiteralValue.eq a b = true ↔ a = b := by
  cases a <;> cases b <;> simp [LiteralValue.eq]
  exact F64.eq_iff ha hb

/-! ## §4 Properties and objects -/

/-- Class-member access modifier (`Public`, `Private`, `Protected`). -/
inductive Visibility
  | publicAccess | privateAccess | protectedAccess
  deriving DecidableEq, Repr

/-- Collision-free identity of an object property. -/
inductive PropertyKey
  | string (name : String)
  | wellKnownSymbol (symbol : WellKnownSymbol)
  deriving DecidableEq, Repr

/-- `PropertyKey::as_string`. -/
def PropertyKey.asString : PropertyKey → Option String
  | .string name => some name
  | .wellKnownSymbol _ => none

/-- The derived `Ord`: strings before symbols, each in its own order. -/
def PropertyKey.cmp : PropertyKey → PropertyKey → Ordering
  | .string a, .string b => compare a b
  | .string _, .wellKnownSymbol _ => .lt
  | .wellKnownSymbol _, .string _ => .gt
  | .wellKnownSymbol a, .wellKnownSymbol b => compare a.index b.index

/-- The order of keys is a total preorder, as `Ord` promises. -/
instance PropertyKey.transCmp : Std.TransCmp PropertyKey.cmp where
  eq_swap {a b} := by
    cases a <;> cases b
    case string.string x y =>
      show compare x y = (compare y x).swap
      exact Std.OrientedCmp.eq_swap
    case wellKnownSymbol.wellKnownSymbol x y =>
      show compare x.index y.index = (compare y.index x.index).swap
      exact Std.OrientedCmp.eq_swap
    all_goals rfl
  isLE_trans {a b c} hab hbc := by
    cases a <;> cases b <;> cases c
    case string.string.string x y z =>
      show (compare x z).isLE = true
      exact Std.TransCmp.isLE_trans (show (compare x y).isLE = true from hab) hbc
    case wellKnownSymbol.wellKnownSymbol.wellKnownSymbol x y z =>
      show (compare x.index z.index).isLE = true
      exact Std.TransCmp.isLE_trans (show (compare x.index y.index).isLE = true from hab) hbc
    all_goals first | rfl | cases hab; done | cases hbc

/-- A member of an object type; every field is part of the identity. -/
structure PropertyType where
  key : PropertyKey
  ty : TypeId
  writeTy : Option TypeId := none
  optional : Bool := false
  visibility : Visibility := .publicAccess
  declaringClass : Option ClassId := none
  readonly : Bool := false
  isAccessor : Bool := false
  deriving DecidableEq, Repr

/-- Structural object type. -/
structure ObjectType where
  properties : List PropertyType := []
  stringIndex : Option TypeId := none
  numberIndex : Option TypeId := none
  callSignatures : List TypeId := []
  constructSignatures : List TypeId := []
  deriving DecidableEq, Repr

/-- `ObjectType::property`. -/
def ObjectType.property (object : ObjectType) (name : String) : Option PropertyType :=
  object.properties.find? (fun property => property.key.asString == some name)

/-- `ObjectType::property_by_key`. -/
def ObjectType.propertyByKey (object : ObjectType) (key : PropertyKey) : Option PropertyType :=
  object.properties.find? (fun property => property.key == key)

/-- `properties.sort_by(|a, b| a.key.cmp(&b.key))`: the stable sort by key. -/
def sortProperties (properties : List PropertyType) : List PropertyType :=
  properties.insertionSort (fun a b => (PropertyKey.cmp a.key b.key).isLE = true)

/-- The object with its properties in canonical order. -/
def ObjectType.canonical (object : ObjectType) : ObjectType :=
  { object with properties := sortProperties object.properties }

/-- The order `sortProperties` sorts by. -/
def PropertyType.keyLE (a b : PropertyType) : Prop := (PropertyKey.cmp a.key b.key).isLE = true

instance : DecidableRel PropertyType.keyLE :=
  fun a b => inferInstanceAs (Decidable ((PropertyKey.cmp a.key b.key).isLE = true))

instance : Std.Total PropertyType.keyLE where
  total a b := by
    have hswap : PropertyKey.cmp b.key a.key = (PropertyKey.cmp a.key b.key).swap :=
      Std.OrientedCmp.eq_swap
    unfold PropertyType.keyLE
    rw [hswap]
    cases PropertyKey.cmp a.key b.key <;> decide

instance : IsTrans PropertyType PropertyType.keyLE where
  trans _ _ _ hab hbc := Std.TransCmp.isLE_trans hab hbc

theorem sortProperties_sortProperties (properties : List PropertyType) :
    sortProperties (sortProperties properties) = sortProperties properties :=
  List.Pairwise.insertionSort_eq (List.pairwise_insertionSort PropertyType.keyLE properties)

theorem ObjectType.canonical_canonical (object : ObjectType) :
    object.canonical.canonical = object.canonical := by
  simp only [ObjectType.canonical, sortProperties_sortProperties]

/-! ## §5 Functions and the other composites -/

/-- A positional function parameter. -/
structure ParameterType where
  name : String
  ty : TypeId
  optional : Bool := false
  hasDefault : Bool := false
  rest : Bool := false
  deriving DecidableEq, Repr

/-- `ParameterType::is_required_fixed`. -/
def ParameterType.isRequiredFixed (param : ParameterType) : Bool :=
  !param.rest && !param.optional

/-- A binder owned by a generic function signature. -/
structure GenericTypeParam where
  id : TypeParamId
  constraint : Option TypeId := none
  default : Option TypeId := none
  deriving DecidableEq, Repr

/-- A type-parameter type; its identity is `id` alone. -/
structure TypeParamType where
  id : TypeParamId
  name : String
  deriving DecidableEq, Repr

/-- Structural function type. -/
structure FunctionType where
  typeParams : List GenericTypeParam := []
  receiver : Option TypeId := none
  params : List ParameterType := []
  ret : TypeId
  deriving DecidableEq, Repr

/-- `FunctionType::fixed_params`. -/
def FunctionType.fixedParams (function : FunctionType) : List ParameterType :=
  function.params.filter (fun param => !param.rest)

/-- `FunctionType::rest_param`. -/
def FunctionType.restParam (function : FunctionType) : Option ParameterType :=
  function.params.find? (fun param => param.rest)

/-- A tuple rest segment at a position among the fixed elements. -/
structure TupleRestType where
  position : Nat
  ty : TypeId
  deriving DecidableEq, Repr

/-- A tuple: fixed elements in source order plus an optional rest segment. -/
structure TupleType where
  elements : List TypeId := []
  rest : Option TupleRestType := none
  deriving DecidableEq, Repr

/-- `check extends extendsTy ? trueBranch : falseBranch`. -/
structure ConditionalType where
  check : TypeId
  extendsTy : TypeId
  trueBranch : TypeId
  falseBranch : TypeId
  inferCount : Nat := 0
  distributive : Bool := false
  poisoned : Bool := false
  deriving DecidableEq, Repr

/-- Lazy alias instantiation `substitute(base, args)`. -/
structure InstantiationType where
  base : TypeId
  args : List (TypeParamId × TypeId)
  deriving DecidableEq, Repr

/-- Immutable class application. -/
structure ClassInstanceType where
  classId : ClassId
  args : List TypeId
  deriving DecidableEq, Repr

/-- Deferred indexed access `object[index]`. -/
structure DeferredIndexedAccessType where
  object : TypeId
  index : TypeId
  deriving DecidableEq, Repr

/-- Declaration-surface syntax after query-free planning. -/
inductive DeclaredRecipeNode
  | type (ty : TypeId)
  | array (child : DeclaredRecipeId)
  | tuple (elements : List DeclaredRecipeId) (rest : Option (Nat × DeclaredRecipeId))
  | readonly (child : DeclaredRecipeId)
  | application (template : TypeId) (parameters : List TypeParamId)
      (arguments : List DeclaredRecipeId)
  deriving DecidableEq, Repr

/-- A hash-consed recipe and its free declaration parameters. -/
structure DeclaredTypeRecipe where
  node : DeclaredRecipeNode
  freeParams : List TypeParamId
  deriving DecidableEq, Repr

/-- A recipe application; mapper keys are sorted and unique. -/
structure DeclaredType where
  recipe : DeclaredRecipeId
  mapper : List (TypeParamId × TypeId)
  deriving DecidableEq, Repr

/-- Mapped-type modifier arithmetic. -/
inductive ModifierOp
  | keep | add | remove
  deriving DecidableEq, Repr

/-- Template literal type: `texts` and `holes` alternate. -/
structure TemplateType where
  texts : List String := []
  holes : List TypeId := []
  deriving DecidableEq, Repr

/-- Mapped type `{ [K in S]: V }`. -/
structure MappedType where
  homomorphic : Bool
  keySource : TypeId
  valueTemplate : TypeId
  modifiersSource : Option TypeId := none
  optionalModifier : ModifierOp := .keep
  readonlyModifier : ModifierOp := .keep
  deriving DecidableEq, Repr

end Typokat.Types
