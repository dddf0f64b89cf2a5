import Typokat.Lib.Threaded
import Typokat.Types.SetForms

/-!
# Key Types (`checker/eval/keyof.rs`)

`keyof` of an object is the union of the literal types of its public keys, of an intersection
the union over its members, and of a union the keys that every member has.

A union of literal types that name keys is only known by the keys it names: which members it
flattens to and in which order they were made does not matter.

## Main Results

- `keyUnion_union` : a union of key unions names the keys of all of them
- `keyofOfObject_spec`, `keyofOfUnion_spec` : the keys that `keyof` names
-/

namespace Typokat.Check

open Types Interner Option

/-! ## §1 `keyof` -/

section Keyof

variable (structuralHash : StructuralKey → Nat)

/-- The literal that names a key. -/
def keyLiteral : PropertyKey → LiteralValue
  | .string name => .string name
  | .wellKnownSymbol symbol => .wellKnownSymbol symbol

/-- `property_key_type`. -/
def propertyKeyType (σ : Interner) (key : PropertyKey) : TypeId × Interner :=
  σ.internLiteral structuralHash (keyLiteral key)

/-- The types of a list of keys, made one after the other. -/
def propertyKeyTypes (σ : Interner) (keys : List PropertyKey) :
    Option (List TypeId × Interner) :=
  Lib.mapThreaded (fun σ key => some (propertyKeyType structuralHash σ key)) σ keys

/-- The keys of the public properties. -/
def publicKeys (object : ObjectType) : List PropertyKey :=
  (object.properties.filter (fun property => property.visibility == .publicAccess)).map
    (fun property => property.key)

/-- `keyof_of_object`; the union is only missing when an id is out of range. -/
def keyofOfObject (σ : Interner) (operand : TypeId) : Option (TypeId × Interner) :=
  (σ.store.objectType operand).bind (fun object =>
    (propertyKeyTypes structuralHash σ (publicKeys object)).bind (fun (keys, τ) =>
      -- a string index covers the numeric keys too
      τ.union structuralHash (keys
        ++ (if object.stringIndex.isSome then [σ.wellKnown.string] else [])
        ++ (if object.stringIndex.isSome || object.numberIndex.isSome
            then [σ.wellKnown.number] else []))))

/-- `UnionKeyInfo`; its `key_set` holds the elements of `keys`. -/
structure UnionKeyInfo where
  keys : List PropertyKey
  hasStringIndex : Bool
  hasNumberIndex : Bool

def unionKeyInfo (object : ObjectType) : UnionKeyInfo where
  keys := publicKeys object
  hasStringIndex := object.stringIndex.isSome
  hasNumberIndex := object.numberIndex.isSome

/-- The test of `present_in_all`. -/
def UnionKeyInfo.covers (info : UnionKeyInfo) (key : PropertyKey) : Bool :=
  info.keys.contains key || (key.asString.isSome && info.hasStringIndex)

/-- `keyof_of_union`. -/
def keyofOfUnion (σ : Interner) (members : List TypeId) : Option (TypeId × Interner) :=
  (members.mapM (fun member => (σ.store.objectType member).map unionKeyInfo)).bind (fun infos =>
    let allKeys := (infos.flatMap (fun info => info.keys)).eraseDups
    (propertyKeyTypes structuralHash σ
      (allKeys.filter (fun key => infos.all (fun info => info.covers key)))).bind
      (fun (keys, τ) =>
        τ.union structuralHash (keys
          ++ (if infos.all (fun info => info.hasStringIndex) then [σ.wellKnown.string] else [])
          ++ (if infos.all (fun info => info.hasStringIndex || info.hasNumberIndex)
              then [σ.wellKnown.number] else []))))

/-- `keyof_of_type`: `none` outside of the subset, and while the call has not returned after
    `fuel` nested calls. -/
def keyofOfType : Nat → Interner → TypeId → Option (TypeId × Interner)
  | 0, _, _ => none
  | fuel + 1, σ, operand =>
    if operand == σ.wellKnown.object then some (σ.wellKnown.never, σ)
    else if (σ.store.objectType operand).isSome then keyofOfObject structuralHash σ operand
    else
      match σ.store.intersectionMembers operand with
      | some members =>
        (Lib.mapThreaded (keyofOfType fuel) σ members).bind (fun (keys, τ) =>
          τ.union structuralHash keys)
      | none => (σ.store.unionMembers operand).bind (keyofOfUnion structuralHash σ)

end Keyof

/-! ## §2 Unions of key types -/

section KeyUnions

variable {structuralHash : StructuralKey → Nat} {regular : Prop} {σ τ : Interner}

theorem keyLiteral_injective : Function.Injective keyLiteral := by
  intro a b h
  cases a <;> cases b <;> simp_all [keyLiteral]

/-- A literal that names a key is equal to no other literal. -/
theorem eq_keyLiteral {value : LiteralValue} {key : PropertyKey}
    (h : LiteralValue.eq value (keyLiteral key) = true) : value = keyLiteral key := by
  cases key <;> cases value <;> simp_all [LiteralValue.eq, keyLiteral]

/-- A member of the type names the key. -/
def NamedKey (store : Store) (keys : TypeId) (key : PropertyKey) : Prop :=
  ∃ member ∈ Interner.expand store.unionMembers keys,
    store.row member = some (.literal (keyLiteral key))

/-- A union of the literal types of exactly the given keys. -/
structure KeyUnion (σ : Interner) (keys : TypeId) (named : PropertyKey → Prop) : Prop where
  row : ∃ r, σ.store.row keys = some r
  members : ∀ member ∈ Interner.expand σ.store.unionMembers keys,
    member = σ.wellKnown.never ∨
      ∃ key, named key ∧ σ.store.row member = some (.literal (keyLiteral key))
  named : ∀ key, named key → NamedKey σ.store keys key

theorem expand_extends (hext : Interner.Extends σ τ) {id : TypeId} {r : Row}
    (hr : σ.store.row id = some r) :
    expand τ.store.unionMembers id = expand σ.store.unionMembers id := by
  unfold expand
  rw [show τ.store.unionMembers id = σ.store.unionMembers id from hext.entry_eq hr .unions]

variable {named : PropertyKey → Prop}

theorem KeyUnion.mono (hext : Interner.Extends σ τ) {keys : TypeId} (h : KeyUnion σ keys named) :
    KeyUnion τ keys named := by
  obtain ⟨r, hr⟩ := h.row
  have hexpand := expand_extends hext hr
  constructor
  · exact ⟨r, hext.row hr⟩
  · intro member hmember
    rw [hexpand] at hmember
    rcases h.members member hmember with heq | ⟨key, hkey, hrow⟩
    · left
      rw [hext.wellKnown]
      exact heq
    · exact .inr ⟨key, hkey, hext.row hrow⟩
  · intro key hkey
    obtain ⟨member, hmember, hrow⟩ := h.named key hkey
    rw [← hexpand] at hmember
    exact ⟨member, hmember, hext.row hrow⟩

theorem KeyUnion.namedKey_iff (hknown : σ.KnowsIntrinsics) {keys : TypeId}
    (h : KeyUnion σ keys named) (key : PropertyKey) :
    NamedKey σ.store keys key ↔ named key := by
  constructor
  · intro hnamed
    obtain ⟨member, hmember, hrow⟩ := hnamed
    rcases h.members member hmember with heq | ⟨other, hother, hrow'⟩
    · -- `never` is no literal
      have hnever : σ.store.row member = some (.intrinsic .never) := by
        rw [heq]
        exact hknown.row .never
      rw [hrow] at hnever
      cases hnever
    · rw [hrow, some.injEq, Row.literal.injEq] at hrow'
      rw [keyLiteral_injective hrow']
      exact hother
  · exact h.named key

theorem expand_literal {id : TypeId} {value : LiteralValue}
    (hrow : σ.store.row id = some (.literal value)) :
    expand σ.store.unionMembers id = [id] := by
  apply expand_of_none
  apply unionMembers_of_tag_ne
  simp [Store.tag_of_row hrow, Row.tag]

theorem keyUnion_literal {id : TypeId} {key : PropertyKey}
    (hrow : σ.store.row id = some (.literal (keyLiteral key))) :
    KeyUnion σ id (fun other => other = key) := by
  have hexpand := expand_literal hrow
  constructor
  · exact ⟨_, hrow⟩
  · intro member hmember
    rw [hexpand, List.mem_singleton] at hmember
    rw [hmember]
    exact .inr ⟨key, rfl, hrow⟩
  · intro other hother
    rw [hother]
    exact ⟨id, by simp [hexpand], hrow⟩

section KeyTypes

variable (hσ : σ.Consed structuralHash regular) (key : PropertyKey)
include hσ key

/-- The row of the type of a key. -/
theorem row_propertyKeyType :
    (propertyKeyType structuralHash σ key).2.store.row (propertyKeyType structuralHash σ key).1
      = some (.literal (keyLiteral key)) := by
  unfold propertyKeyType internLiteral internWith
  dsimp only
  split
  · -- the closure only accepts the same literal
    rename_i existing hlookup
    obtain ⟨r, hr, haccept⟩ := hσ.lookup_eq_some hlookup
    cases hvalue : σ.store.literalValue existing with
    | none =>
      rw [hvalue] at haccept
      cases haccept
    | some value =>
      rw [hvalue] at haccept
      rw [← eq_keyLiteral haccept]
      exact (σ.store.entry_eq_some_iff .literals existing value).mp hvalue
  · exact (Store.appended_pushEntry hσ.wellFormed).row_new

theorem grows_propertyKeyType :
    Interner.Grows structuralHash regular σ (propertyKeyType structuralHash σ key).2 := by
  have hregular : regular → (keyLiteral key).Regular := by
    intro _
    cases key <;> trivial
  exact .of_internSpec hσ (internSpec_internLiteral hσ hregular)

end KeyTypes

/-- A literal type is no intrinsic. -/
theorem ne_wellKnown_of_literal (hknown : σ.KnowsIntrinsics) {id : TypeId} {value : LiteralValue}
    (hrow : σ.store.row id = some (.literal value)) (kind : IntrinsicKind) :
    id ≠ σ.wellKnown.id kind := by
  intro heq
  rw [heq, hknown.row kind] at hrow
  cases hrow

/-- **A union of key unions names the keys of all of them.** -/
theorem keyUnion_union (hσ : σ.Consed structuralHash regular) (hknown : σ.KnowsIntrinsics)
    {members : List TypeId}
    (hmembers : ∀ member ∈ members, ∃ part, KeyUnion σ member part ∧ ∀ key, part key → named key)
    (hnamed : ∀ key, named key → ∃ member ∈ members, ∃ part, KeyUnion σ member part ∧ part key)
    {made : TypeId} (h : σ.union structuralHash members = some (made, τ)) :
    KeyUnion τ made named := by
  have hrows : ∀ member ∈ members, ∃ r, σ.store.row member = some r := by
    intro member hmember
    obtain ⟨part, hpart, _⟩ := hmembers member hmember
    exact hpart.row
  have hext := (extends_union hσ h).1
  have hunion := (union_eq structuralHash hσ hrows).1
  rw [h, some.injEq] at hunion
  -- the flat members are `never` and the literals of the named keys
  have hflat : ∀ id ∈ flattened σ.store.unionMembers members,
      id = σ.wellKnown.never ∨
        ∃ key, named key ∧ σ.store.row id = some (.literal (keyLiteral key)) := by
    intro id hid
    obtain ⟨member, hmember, hexpand⟩ := mem_flattened.mp hid
    obtain ⟨part, hpart, hall⟩ := hmembers member hmember
    rcases hpart.members id hexpand with heq | ⟨key, hkey, hrow⟩
    · exact .inl heq
    · exact .inr ⟨key, hall key hkey, hrow⟩
  have habsent : ∀ kind, kind ≠ .never →
      σ.wellKnown.id kind ∉ flattened σ.store.unionMembers members := by
    intro kind hkind hmem
    rcases hflat _ hmem with heq | ⟨key, _, hrow⟩
    · exact wellKnown_ne hknown hkind heq
    · exact ne_wellKnown_of_literal hknown hrow kind rfl
  have hflatMember : ∀ id ∈ flattened σ.store.unionMembers members,
      σ.store.FlatMember .union id :=
    fun id hid => flatMember_of_mem_flattened hσ hrows hid
  have hmem := fun id => @mem_expand_unionOfFlat regular σ structuralHash hσ hknown _
    hflatMember (by simpa [WellKnown.id] using ⟨habsent .any (by simp), habsent .error (by simp)⟩)
    (habsent .unknown (by simp)) id
  obtain ⟨r, hr⟩ := row_unionOfFlat structuralHash hσ hknown hflatMember
  rw [← hunion] at hmem hr
  constructor
  · exact ⟨r, hr⟩
  · intro member hmember
    by_cases hnever : member = σ.wellKnown.never
    · left
      rw [hext.wellKnown]
      exact hnever
    · obtain ⟨key, hkey, hrow⟩ := (hflat member ((hmem member hnever).mp hmember)).resolve_left hnever
      exact .inr ⟨key, hkey, hext.row hrow⟩
  · intro key hkey
    obtain ⟨member, hmember, part, hpart, hin⟩ := hnamed key hkey
    obtain ⟨id, hid, hrow⟩ := hpart.named key hin
    have hne := ne_wellKnown_of_literal hknown hrow .never
    exact ⟨id, (hmem id hne).mpr (mem_flattened.mpr ⟨member, hmember, hid⟩),
      hext.row hrow⟩

/-! ## §3 What `keyof` names -/

/-- Neither a string nor a number index. -/
def PlainObject (object : ObjectType) : Prop :=
  object.stringIndex = none ∧ object.numberIndex = none

section KeyUnions

variable (hσ : σ.Consed structuralHash regular) (hknown : σ.KnowsIntrinsics)
include hσ hknown

/-- The union of the types of some keys names these keys. -/
theorem union_propertyKeyTypes {names : List PropertyKey} {tys : List TypeId} {ρ : Interner}
    (htys : propertyKeyTypes structuralHash σ names = some (tys, ρ)) {keys : TypeId}
    (h : ρ.union structuralHash tys = some (keys, τ)) :
    Interner.Grows structuralHash regular σ τ ∧ KeyUnion τ keys (fun key => key ∈ names) := by
  obtain ⟨hρ, hgrows, hall⟩ := Lib.mapThreaded_spec
    (fun σ : Interner => σ.Consed structuralHash regular)
    (Interner.Grows structuralHash regular)
    (fun key ty σ => KeyUnion σ ty (fun other => other = key))
    Interner.Grows.refl (fun _ _ _ => Interner.Grows.trans)
    (fun _ _ _ _ _ hgrows hpart => hpart.mono hgrows.grown)
    (fun key _ s ty s' hs hstep => by
      have hgrows := grows_propertyKeyType hs key
      have hpart := keyUnion_literal (row_propertyKeyType hs key)
      rw [some.inj hstep] at hgrows hpart
      exact ⟨hgrows.consed hs, hgrows, hpart⟩)
    hσ htys
  refine ⟨hgrows.trans (.of_interning (interning_union tys) hρ h), ?_⟩
  apply keyUnion_union hρ (hknown.mono hgrows.grown) _ _ h
  · intro ty hty
    obtain ⟨key, hkey, hpart⟩ := Lib.exists_left_of_forall₂ hall hty
    exact ⟨_, hpart, fun other hother => hother ▸ hkey⟩
  · intro key hkey
    obtain ⟨ty, hty, hpart⟩ := Lib.exists_right_of_forall₂ hall hkey
    exact ⟨ty, hty, _, hpart, rfl⟩

theorem keyofOfObject_spec {operand : TypeId} {object : ObjectType}
    (hobject : σ.store.objectType operand = some object) (hplain : PlainObject object)
    {keys : TypeId} (h : keyofOfObject structuralHash σ operand = some (keys, τ)) :
    Interner.Grows structuralHash regular σ τ ∧
      KeyUnion τ keys (fun key => key ∈ publicKeys object) := by
  unfold keyofOfObject at h
  rw [hobject, bind_some, hplain.1, hplain.2] at h
  obtain ⟨⟨tys, ρ⟩, htys, hunion⟩ := bind_eq_some_iff.mp h
  apply union_propertyKeyTypes hσ hknown htys
  simpa using hunion

/-- A key that every one of several plain objects has is named. -/
theorem keyofOfUnion_spec {members : List TypeId} {objects : List ObjectType} (hne : objects ≠ [])
    (hobjects : members.mapM σ.store.objectType = some objects)
    (hplain : ∀ object ∈ objects, PlainObject object) {keys : TypeId}
    (h : keyofOfUnion structuralHash σ members = some (keys, τ)) :
    Interner.Grows structuralHash regular σ τ ∧
      KeyUnion τ keys (fun key => ∀ object ∈ objects, key ∈ publicKeys object) := by
  have hinfos : members.mapM (fun member => (σ.store.objectType member).map unionKeyInfo)
      = some (objects.map unionKeyInfo) := by
    rw [Lib.mapM_eq_some_iff] at hobjects ⊢
    rw [List.forall₂_map_right_iff]
    apply hobjects.imp
    intro member object hobject
    rw [hobject, map_some]
  unfold keyofOfUnion at h
  rw [hinfos, bind_some] at h
  obtain ⟨first, hfirst⟩ := List.exists_mem_of_ne_nil objects hne
  obtain ⟨⟨tys, ρ⟩, htys, hunion⟩ := bind_eq_some_iff.mp h
  -- a plain member leaves both index types out
  have hstring : (objects.map unionKeyInfo).all (fun info => info.hasStringIndex) = false := by
    rw [List.all_eq_false]
    exact ⟨_, List.mem_map_of_mem hfirst, by simp [unionKeyInfo, (hplain first hfirst).1]⟩
  have hnumber : (objects.map unionKeyInfo).all
      (fun info => info.hasStringIndex || info.hasNumberIndex) = false := by
    rw [List.all_eq_false]
    exact ⟨_, List.mem_map_of_mem hfirst,
      by simp [unionKeyInfo, (hplain first hfirst).1, (hplain first hfirst).2]⟩
  have hunion : ρ.union structuralHash tys = some (keys, τ) := by
    simpa [hstring, hnumber] using hunion
  obtain ⟨hgrows, hkeys⟩ := union_propertyKeyTypes hσ hknown htys hunion
  have hcovers : ∀ object ∈ objects, ∀ key,
      (unionKeyInfo object).covers key = true ↔ key ∈ publicKeys object := by
    intro object hobject key
    simp [UnionKeyInfo.covers, unionKeyInfo, (hplain object hobject).1]
  refine ⟨hgrows, ?_⟩
  convert hkeys using 2 with key
  rw [List.mem_filter, List.mem_eraseDups, List.mem_flatMap, List.all_map, List.all_eq_true]
  constructor
  · intro hall
    refine ⟨⟨_, List.mem_map_of_mem hfirst, hall first hfirst⟩, ?_⟩
    intro object hobject
    exact (hcovers object hobject key).mpr (hall object hobject)
  · intro hboth object hobject
    exact (hcovers object hobject key).mp (hboth.2 object hobject)

end KeyUnions

theorem ne_wellKnown_of_entry (hknown : σ.KnowsIntrinsics) {t : SideTable} {id : TypeId}
    {e : t.Entry} (h : σ.store.entry t id = some e) (htag : t.tag ≠ .intrinsic)
    (kind : IntrinsicKind) : id ≠ σ.wellKnown.id kind := by
  intro heq
  have hrow := Store.tag_of_row ((σ.store.entry_eq_some_iff t id e).mp h)
  rw [Row.tag_ofEntry, heq, Store.tag_of_row (hknown.row kind), some.injEq] at hrow
  exact htag hrow.symm

section Operands

variable (hσ : σ.Consed structuralHash regular) (hknown : σ.KnowsIntrinsics) {operand : TypeId}
include hσ hknown

/-- What `keyof` names for a plain object. -/
theorem keyofOfType_object {object : ObjectType}
    (hobject : σ.store.objectType operand = some object) (hplain : PlainObject object) {fuel : Nat}
    {keys : TypeId} (h : keyofOfType structuralHash fuel σ operand = some (keys, τ)) :
    Interner.Grows structuralHash regular σ τ ∧
      KeyUnion τ keys (fun key => key ∈ publicKeys object) := by
  cases fuel with
  | zero => cases h
  | succ fuel =>
    have hne : operand ≠ σ.wellKnown.object :=
      ne_wellKnown_of_entry (t := .objects) hknown hobject (by simp [SideTable.tag]) .object
    unfold keyofOfType at h
    rw [if_neg (by simpa using hne), if_pos (by simp [hobject])] at h
    exact keyofOfObject_spec hσ hknown hobject hplain h

/-- What `keyof` names for an intersection of plain objects. -/
theorem keyofOfType_intersection {members : List TypeId}
    (hmembers : σ.store.intersectionMembers operand = some members) {objects : List ObjectType}
    (hobjects : members.mapM σ.store.objectType = some objects)
    (hplain : ∀ object ∈ objects, PlainObject object) {fuel : Nat} {keys : TypeId}
    (h : keyofOfType structuralHash fuel σ operand = some (keys, τ)) :
    Interner.Grows structuralHash regular σ τ ∧
      KeyUnion τ keys (fun key => ∃ object ∈ objects, key ∈ publicKeys object) := by
  cases fuel with
  | zero => cases h
  | succ fuel =>
    have hne : operand ≠ σ.wellKnown.object :=
      ne_wellKnown_of_entry (t := .intersections) hknown hmembers (by simp [SideTable.tag]) .object
    have hobject : σ.store.objectType operand = none :=
      Store.entry_eq_none_of_entry (t := .intersections) hmembers (by simp [SideTable.tag])
    unfold keyofOfType at h
    rw [if_neg (by simpa using hne), if_neg (by simp [hobject]), hmembers] at h
    obtain ⟨⟨parts, ρ⟩, hparts, hunion⟩ := bind_eq_some_iff.mp h
    rw [Lib.mapM_eq_some_iff] at hobjects
    -- every member is one of the objects
    obtain ⟨⟨hρ, hextρ⟩, hgrows, hall⟩ := Lib.mapThreaded_spec
      (fun ρ : Interner => ρ.Consed structuralHash regular ∧ Interner.Extends σ ρ)
      (Interner.Grows structuralHash regular)
      (fun member part ρ => ∀ object, σ.store.objectType member = some object →
        KeyUnion ρ part (fun key => key ∈ publicKeys object))
      Interner.Grows.refl (fun _ _ _ => Interner.Grows.trans)
      (fun _ _ _ _ _ hgrows hpart object hobject => (hpart object hobject).mono hgrows.grown)
      (fun member hmember s part s' hs hstep => by
        obtain ⟨object, hin, hobject⟩ := Lib.exists_right_of_forall₂ hobjects hmember
        have hrow := (σ.store.entry_eq_some_iff .objects member object).mp hobject
        have hthere : s.store.objectType member = some object := by
          rw [← hobject]
          exact hs.2.entry_eq hrow .objects
        obtain ⟨hgrows, hpart⟩ := keyofOfType_object hs.1 (hknown.mono hs.2) hthere
          (hplain object hin) hstep
        refine ⟨⟨hgrows.consed hs.1, hs.2.trans hgrows.grown⟩, hgrows, ?_⟩
        intro other hother
        rw [hobject, some.injEq] at hother
        exact hother ▸ hpart)
      ⟨hσ, .refl σ⟩ hparts
    refine ⟨hgrows.trans (.of_interning (interning_union parts) hρ hunion), ?_⟩
    apply keyUnion_union hρ (hknown.mono hextρ) _ _ hunion
    · intro part hpart
      obtain ⟨member, hmember, hspec⟩ := Lib.exists_left_of_forall₂ hall hpart
      obtain ⟨object, hin, hobject⟩ := Lib.exists_right_of_forall₂ hobjects hmember
      exact ⟨_, hspec object hobject, fun key hkey => ⟨object, hin, hkey⟩⟩
    · intro key hkey
      obtain ⟨object, hin, hkey⟩ := hkey
      obtain ⟨member, hmember, hobject⟩ := Lib.exists_left_of_forall₂ hobjects hin
      obtain ⟨part, hpart, hspec⟩ := Lib.exists_right_of_forall₂ hall hmember
      exact ⟨part, hpart, _, hspec object hobject, hkey⟩

/-- What `keyof` names for a union of plain objects. -/
theorem keyofOfType_union {members : List TypeId}
    (hmembers : σ.store.unionMembers operand = some members) {objects : List ObjectType}
    (hne : objects ≠ []) (hobjects : members.mapM σ.store.objectType = some objects)
    (hplain : ∀ object ∈ objects, PlainObject object) {fuel : Nat} {keys : TypeId}
    (h : keyofOfType structuralHash fuel σ operand = some (keys, τ)) :
    Interner.Grows structuralHash regular σ τ ∧
      KeyUnion τ keys (fun key => ∀ object ∈ objects, key ∈ publicKeys object) := by
  cases fuel with
  | zero => cases h
  | succ fuel =>
    have hneObject : operand ≠ σ.wellKnown.object :=
      ne_wellKnown_of_entry (t := .unions) hknown hmembers (by simp [SideTable.tag]) .object
    have hobject : σ.store.objectType operand = none :=
      Store.entry_eq_none_of_entry (t := .unions) hmembers (by simp [SideTable.tag])
    have hintersection : σ.store.intersectionMembers operand = none :=
      @Store.entry_eq_none_of_entry _ .unions .intersections _ _ hmembers (by simp [SideTable.tag])
    unfold keyofOfType at h
    rw [if_neg (by simpa using hneObject), if_neg (by simp [hobject]), hintersection] at h
    rw [hmembers, bind_some] at h
    exact keyofOfUnion_spec hσ hknown hne hobjects hplain h

end Operands

end KeyUnions

end Typokat.Check
