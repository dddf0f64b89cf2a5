import Mathlib.Data.Set.Lattice
import Typokat.Types.Unions

/-!
# Types as Sets of Values

What the rows of a store mean: a reading gives each type a set of runtime values.  The
intrinsics and literals have the values their names say, unions and intersections are the
unions and intersections of their members, a type parameter has some of the values of its
constraint, the rows of functions and arrays have some of the references, and an object row
has some of the values that are not nullish: the relation lets a primitive into `{}`, and into
an object type whose members its wrapper has.  Nothing is said about the deferred rows, so
whatever holds of every reading holds however these are evaluated.

Objects, functions and arrays are references; what is behind a reference is left open.

## Main Results

- `Reading.mem_union` : what `Interner.union` returns means the union
- `Interner.Reachable.exists_reading` : every reachable store has a reading
-/

namespace Typokat.Types

/-! ## §1 Values -/

/-- A runtime value; `Ref` are the identities of objects, functions, arrays and symbols. -/
inductive Value (Ref : Type)
  | string (s : String)
  | number (n : F64)
  | boolean (b : Bool)
  | null
  | undefined
  | bigint (n : Int)
  | wellKnownSymbol (symbol : WellKnownSymbol)
  | symbol (ref : Ref)
  | object (ref : Ref)
  | function (ref : Ref)
  | array (ref : Ref)

namespace Value

variable {Ref : Type}

/-- The `typeof` operator. -/
def typeof : Value Ref → String
  | .string _ => "string"
  | .number _ => "number"
  | .boolean _ => "boolean"
  | .undefined => "undefined"
  | .bigint _ => "bigint"
  | .wellKnownSymbol _ => "symbol"
  | .symbol _ => "symbol"
  | .function _ => "function"
  | .null => "object"
  | .object _ => "object"
  | .array _ => "object"

/-- Conversion to a boolean. -/
def truthy : Value Ref → Bool
  | .string s => s != ""
  | .number n => !n.isNaN && !n.isZero
  | .boolean b => b
  | .null => false
  | .undefined => false
  | .bigint n => n != 0
  | _ => true

/-- The values that are passed by reference. -/
def NonPrimitive : Value Ref → Prop
  | .object _ => True
  | .function _ => True
  | .array _ => True
  | _ => False

/-- The values of `{}`: all but `null` and `undefined`. -/
def NonNullish : Value Ref → Prop
  | .null => False
  | .undefined => False
  | _ => True

/-- Strict equality with a literal: numbers compare as numbers. -/
def Is : Value Ref → LiteralValue → Prop
  | .string s, .string t => s = t
  | .number n, .number m => F64.eq n m = true
  | .boolean b, .boolean c => b = c
  | .wellKnownSymbol s, .wellKnownSymbol t => s = t
  | _, _ => False

@[simp] theorem is_boolean {v : Value Ref} {b : Bool} :
    v.Is (.boolean b) ↔ v = .boolean b := by
  cases v <;> simp [Is]

theorem NonPrimitive.truthy {v : Value Ref} (h : v.NonPrimitive) : v.truthy = true := by
  cases v <;> first
    | rfl
    | cases h

end Value

/-- The values of an intrinsic.  The markers are the bases of symbolic instantiations and no
    types of values. -/
def IntrinsicKind.Holds {Ref : Type} : IntrinsicKind → Value Ref → Prop
  | .error, _ => True
  | .any, _ => True
  | .unknown, _ => True
  | .never, _ => False
  | .void, v => v = .undefined
  | .null, v => v = .null
  | .undefined, v => v = .undefined
  | .boolean, v => ∃ b, v = .boolean b
  | .number, v => ∃ n, v = .number n
  | .string, v => ∃ s, v = .string s
  | .object, v => v.NonPrimitive
  | .bigInt, v => ∃ n, v = .bigint n
  | .symbol, v => (∃ s, v = .wellKnownSymbol s) ∨ ∃ ref, v = .symbol ref
  | .uppercase, _ => False
  | .lowercase, _ => False
  | .capitalize, _ => False
  | .uncapitalize, _ => False
  | .thisType, _ => False
  | .omitThisParameter, _ => False

/-! ## §2 Readings -/

/-- The rows whose values are references. -/
def Row.IsReference : Row → Prop
  | .function _ => True
  | .array _ => True
  | .tuple _ => True
  | .readonly _ => True
  | _ => False

/-- **A reading of a store.** -/
structure Reading (Ref : Type) (store : Store) where
  values : TypeId → Set (Value Ref)
  intrinsic : ∀ {id kind}, store.row id = some (.intrinsic kind) →
    ∀ v, v ∈ values id ↔ kind.Holds v
  literal : ∀ {id value}, store.row id = some (.literal value) → ∀ v, v ∈ values id ↔ v.Is value
  union : ∀ {id members}, store.row id = some (.union members) →
    ∀ v, v ∈ values id ↔ ∃ member ∈ members, v ∈ values member
  intersection : ∀ {id members}, store.row id = some (.intersection members) →
    ∀ v, v ∈ values id ↔ ∀ member ∈ members, v ∈ values member
  /-- a type parameter is any subset of its constraint -/
  typeParam : ∀ {id param constraint}, store.row id = some (.typeParam param) →
    store.typeParamConstraint param.id = some constraint → values id ⊆ values constraint
  reference : ∀ {id r}, store.row id = some r → r.IsReference →
    ∀ v ∈ values id, Value.NonPrimitive v
  object : ∀ {id body}, store.row id = some (.object body) → ∀ v ∈ values id, v.NonNullish
  /-- `{}` accepts every value that is not nullish -/
  emptyObject : ∀ {id}, store.row id = some (.object {}) → ∀ v, v ∈ values id ↔ v.NonNullish
  template : ∀ {id template}, store.row id = some (.template template) →
    ∀ v ∈ values id, ∃ s, v = .string s

namespace Reading

variable {Ref : Type} {structuralHash : StructuralKey → Nat} {regular : Prop} {σ : Interner}

/-- A member of a union or its expansion have the same values. -/
theorem mem_expand {result : TypeId × Interner} (ρ : Reading Ref result.2.store)
    (hext : Interner.Extends σ result.2) (member : TypeId) (v : Value Ref) :
    (∃ id ∈ Interner.expand σ.store.unionMembers member, v ∈ ρ.values id) ↔
      v ∈ ρ.values member := by
  cases hnested : σ.store.unionMembers member with
  | none =>
    rw [Interner.expand_of_none hnested]
    simp
  | some inner =>
    rw [Interner.expand_of_some hnested]
    have hrow := (σ.store.entry_eq_some_iff .unions member inner).mp hnested
    exact (ρ.union (hext.row hrow) v).symm

/-- **A union means the union of its members.** -/
theorem mem_union {members : List TypeId} {result : TypeId × Interner}
    (hσ : σ.Consed structuralHash regular) (hknown : σ.KnowsIntrinsics)
    (hrows : ∀ member ∈ members, ∃ r, σ.store.row member = some r)
    (h : σ.union structuralHash members = some result) (ρ : Reading Ref result.2.store)
    (v : Value Ref) : v ∈ ρ.values result.1 ↔ ∃ member ∈ members, v ∈ ρ.values member := by
  have hext := (Interner.extends_union hσ h).1
  obtain ⟨flat, made, hmade, hflat, hresult⟩ := Interner.union_spec hσ hrows
  rw [h] at hmade
  cases hmade
  -- the flat members have the values of the members
  have hvalues : (∃ id ∈ flat, v ∈ ρ.values id) ↔ ∃ member ∈ members, v ∈ ρ.values member := by
    constructor
    · intro ⟨id, hid, hv⟩
      obtain ⟨member, hmember, hexpand⟩ := List.mem_flatMap.mp ((hflat id).mp hid)
      exact ⟨member, hmember, (mem_expand ρ hext member v).mp ⟨id, hexpand, hv⟩⟩
    · intro ⟨member, hmember, hv⟩
      obtain ⟨id, hexpand, hid⟩ := (mem_expand ρ hext member v).mpr hv
      exact ⟨id, (hflat id).mpr (List.mem_flatMap.mpr ⟨member, hmember, hexpand⟩), hid⟩
  have hwell : ∀ kind, v ∈ ρ.values (σ.wellKnown.id kind) ↔ kind.Holds v :=
    fun kind => ρ.intrinsic (hext.row (hknown.row kind)) v
  have hany : v ∈ ρ.values σ.wellKnown.any := (hwell .any).mpr trivial
  have herror : v ∈ ρ.values σ.wellKnown.error := (hwell .error).mpr trivial
  have hunknown : v ∈ ρ.values σ.wellKnown.unknown := (hwell .unknown).mpr trivial
  have hnever : v ∉ ρ.values σ.wellKnown.never := fun hv => (hwell .never).mp hv
  rw [← hvalues]
  cases hresult with
  | any htop =>
    refine ⟨fun _ => ?_, fun _ => hany⟩
    rcases htop with htop | htop
    · exact ⟨_, htop, hany⟩
    · exact ⟨_, htop, herror⟩
  | unknown htop => exact ⟨fun _ => ⟨_, htop, hunknown⟩, fun _ => hunknown⟩
  | never hall =>
    refine ⟨fun hv => absurd hv hnever, ?_⟩
    intro ⟨id, hid, hv⟩
    rw [hall id hid] at hv
    exact absurd hv hnever
  | single id hid hall =>
    refine ⟨fun hv => ⟨id, hid, hv⟩, ?_⟩
    intro ⟨other, hother, hv⟩
    rcases hall other hother with rfl | rfl
    · exact hv
    · exact absurd hv hnever
  | row kept hresult hkept hrow =>
    rw [ρ.union hrow v]
    constructor
    · intro ⟨id, hid, hv⟩
      exact ⟨id, ((hkept id).mp hid).1, hv⟩
    · intro ⟨id, hid, hv⟩
      refine ⟨id, (hkept id).mpr ⟨hid, ?_⟩, hv⟩
      intro heq
      rw [heq] at hv
      exact hnever hv

end Reading

/-! ## §3 Every reachable store has a reading -/

/-- The values of a row when the members of set rows have the given values: a function or an
array may be any reference, an object any value that is not nullish, a template any string, and
type parameters and deferred rows have no value. -/
def Row.PlainHolds {Ref : Type} (values : TypeId → Set (Value Ref)) : Row → Value Ref → Prop
  | .intrinsic kind, v => kind.Holds v
  | .literal value, v => v.Is value
  | .union members, v => ∃ member ∈ members, v ∈ values member
  | .intersection members, v => ∀ member ∈ members, v ∈ values member
  | .template _, v => ∃ s, v = .string s
  | .object _, v => v.NonNullish
  | .function _, v => v.NonPrimitive
  | .array _, v => v.NonPrimitive
  | .tuple _, v => v.NonPrimitive
  | .readonly _, v => v.NonPrimitive
  | _, _ => False

/-- The plain values of a type; set types are read member by member. -/
def plainValues {Ref : Type} (store : Store) (id : TypeId) : Set (Value Ref) :=
  {v | ∃ r, store.row id = some r ∧
    r.PlainHolds (fun member => {v | ∃ _ : member < id, v ∈ plainValues store member}) v}
termination_by id

variable {Ref : Type}

theorem mem_plainValues {store : Store} {id : TypeId} {r : Row} (hr : store.row id = some r)
    (hordered : store.SetsOrdered) (v : Value Ref) :
    v ∈ plainValues store id ↔ r.PlainHolds (plainValues store) v := by
  have hlt := hordered id r hr
  have hrow : v ∈ plainValues store id ↔
      r.PlainHolds (fun member => {v | ∃ _ : member < id, v ∈ plainValues store member}) v := by
    rw [plainValues, Set.mem_setOf_eq]
    simp [hr]
  rw [hrow]
  cases r
  case union members =>
    constructor
    · intro ⟨member, hmember, _, hv⟩
      exact ⟨member, hmember, hv⟩
    · intro ⟨member, hmember, hv⟩
      exact ⟨member, hmember, hlt member hmember, hv⟩
  case intersection members =>
    constructor
    · intro h member hmember
      exact (h member hmember).2
    · intro h member hmember
      exact ⟨hlt member hmember, h member hmember⟩
  all_goals rfl

/-- The plain reading of a store whose set types are made of earlier types. -/
def plainReading (store : Store) (hordered : store.SetsOrdered) : Reading Ref store where
  values := plainValues store
  intrinsic hr v := mem_plainValues hr hordered v
  literal hr v := mem_plainValues hr hordered v
  union hr v := mem_plainValues hr hordered v
  intersection hr v := mem_plainValues hr hordered v
  typeParam hr _ v hv := ((mem_plainValues hr hordered v).mp hv).elim
  reference {id r} hr hreference v hv := by
    have h := (mem_plainValues hr hordered v).mp hv
    cases r <;> first
      | exact h
      | cases hreference
  object hr v hv := (mem_plainValues hr hordered v).mp hv
  emptyObject hr v := mem_plainValues hr hordered v
  template hr v hv := (mem_plainValues hr hordered v).mp hv

/-- **Every reachable store has a reading.** -/
theorem Interner.Reachable.exists_reading {structuralHash : StructuralKey → Nat} {σ : Interner}
    (h : σ.Reachable structuralHash) : Nonempty (Reading Ref σ.store) :=
  ⟨plainReading σ.store h.setsOrdered⟩

end Typokat.Types
