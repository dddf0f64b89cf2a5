import Typokat.Check.Keyof

/-!
# Source Properties of Mapped Types (`checker/eval/mapped.rs`)

A mapped type over `keyof S` iterates the properties of `S`; over another list of keys it looks
each key up in `S`.  Both combine the properties of the members of a union or an intersection,
in two separate implementations.

The iteration takes the properties of every visibility, and it keeps what an object repeats,
while `keyof` names each public key once.  The lookup takes the first property of a key, and
in an intersection it wants the key in every member.

## Main Results

- `homomorphic_keys_iff` : when the iterated keys are the ones that `keyof` names
- `picks_agree_iff` : when every iterated property is the one that is looked up
-/

namespace Typokat.Check

open Types Interner SideTable Option List

/-! ## §1 Iterated properties -/

/-- A key with the types and modifiers of the properties that stand for it. -/
structure SourceEntry where
  key : PropertyKey
  tys : List TypeId
  optional : Bool
  readonly : Bool
  deriving DecidableEq

/-- The property of an entry whose types were combined to one. -/
def SourceEntry.property (entry : SourceEntry) (ty : TypeId) : PropertyType where
  key := entry.key
  ty
  optional := entry.optional
  readonly := entry.readonly

/-- `object_type`, for an object without index signatures. -/
def iterableObject (store : Store) (id : TypeId) : Option ObjectType :=
  (store.objectType id).filter (fun object =>
    !(object.stringIndex.isSome || object.numberIndex.isSome))

/-- Push a property to the entry of its key, or add one. -/
def addProperty : List SourceEntry → PropertyType → List SourceEntry
  | [], prop => [⟨prop.key, [prop.ty], prop.optional, prop.readonly⟩]
  | entry :: rest, prop =>
    if entry.key == prop.key then
      { entry with
        tys := entry.tys ++ [prop.ty]
        optional := entry.optional && prop.optional
        readonly := entry.readonly || prop.readonly } :: rest
    else entry :: addProperty rest prop

/-- The entry of a property of the first member, when every other member has its key. -/
def commonEntry (rest : List ObjectType) (prop : PropertyType) : Option SourceEntry :=
  (rest.mapM (fun other : ObjectType => other.propertyByKey prop.key)).map (fun found =>
    { key := prop.key
      tys := prop.ty :: found.map (fun other => other.ty)
      optional := prop.optional || found.any (fun other => other.optional)
      readonly := prop.readonly || found.any (fun other => other.readonly) })

/-- Combine the types of an entry. -/
def combineEntry (op : Interner → List TypeId → Option (TypeId × Interner)) (σ : Interner)
    (entry : SourceEntry) : Option (PropertyType × Interner) :=
  (op σ entry.tys).map (fun (ty, σ) => (entry.property ty, σ))

section Source

variable (structuralHash : StructuralKey → Nat)

variable (σ : Interner)

/-- `intersection_source_props`. -/
def intersectionSourceProps (members : List TypeId) :
    Option (List PropertyType × Interner) :=
  (members.mapM (iterableObject σ.store)).bind (fun objects =>
    Lib.mapThreaded (combineEntry (Interner.intersection structuralHash)) σ
      ((objects.flatMap (fun object => object.properties)).foldl addProperty []))

/-- The union case of `homomorphic_source_props`. -/
def unionSourceProps (members : List TypeId) :
    Option (List PropertyType × Interner) :=
  (members.mapM (iterableObject σ.store)).bind (fun objects =>
    match objects with
    | [] => none
    | first :: rest =>
      Lib.mapThreaded (combineEntry (Interner.union structuralHash)) σ
        (first.properties.filterMap (commonEntry rest)))

/-- `homomorphic_source_props`. -/
def homomorphicSourceProps (keySource : TypeId) :
    Option (List PropertyType × Interner) :=
  match σ.store.objectType keySource with
  | some object =>
    if object.stringIndex.isSome || object.numberIndex.isSome then none
    else some (object.properties, σ)
  | none =>
    match σ.store.intersectionMembers keySource with
    | some members => intersectionSourceProps structuralHash σ members
    | none => (σ.store.unionMembers keySource).bind (unionSourceProps structuralHash σ)

/-! ## §2 Looked up properties -/

/-- `named_source_property`. -/
def namedSourceProperty (name : String) (object : ObjectType) : Option PropertyType :=
  (object.property name).or
    (object.stringIndex.map (fun ty => { key := .string name, ty }))

/-- The properties of a name in every member. -/
def memberSourceProperties (store : Store) (name : String) (members : List TypeId) :
    Option (List PropertyType) :=
  members.mapM (fun member => (store.objectType member).bind (namedSourceProperty name))

/-- `intersection_source_property`. -/
def intersectionSourceProperty (members : List TypeId) (name : String) :
    Option (PropertyType × Interner) :=
  (memberSourceProperties σ.store name members).bind (fun found =>
    (σ.intersection structuralHash (found.map (fun prop => prop.ty))).map (fun (ty, σ) =>
      ({ key := .string name
         ty
         optional := found.all (fun prop => prop.optional)
         readonly := found.any (fun prop => prop.readonly) }, σ)))

/-- The union case of `modifiers_source_property`. -/
def unionSourceProperty (members : List TypeId) (name : String) :
    Option (PropertyType × Interner) :=
  (memberSourceProperties σ.store name members).bind (fun found =>
    (σ.union structuralHash (found.map (fun prop => prop.ty))).map (fun (ty, σ) =>
      ({ key := .string name
         ty
         optional := found.any (fun prop => prop.optional)
         readonly := found.any (fun prop => prop.readonly) }, σ)))

/-- `modifiers_source_property`. -/
def modifiersSourceProperty (source : TypeId) (name : String) :
    Option (PropertyType × Interner) :=
  match (σ.store.objectType source).bind (namedSourceProperty name) with
  | some prop => some (prop, σ)
  | none =>
    match σ.store.intersectionMembers source with
    | some members => intersectionSourceProperty structuralHash σ members name
    | none =>
      (σ.store.unionMembers source).bind (fun members =>
        unionSourceProperty structuralHash σ members name)

end Source

/-! ## §3 Entries -/

/-- The entry of a key over all properties that stand for it in an intersection. -/
def entryOf (key : PropertyKey) (found : List PropertyType) : SourceEntry where
  key
  tys := found.map (fun prop => prop.ty)
  optional := found.all (fun prop => prop.optional)
  readonly := found.any (fun prop => prop.readonly)

/-- The properties of a key. -/
def occurrences (props : List PropertyType) (key : PropertyKey) : List PropertyType :=
  props.filter (fun prop => prop.key == key)

/-- There is one entry for each key, over all its properties. -/
structure Collects (entries : List SourceEntry) (props : List PropertyType) : Prop where
  nodup : (entries.map (fun entry => entry.key)).Nodup
  mem_keys : ∀ key, key ∈ entries.map (fun entry => entry.key) ↔
    key ∈ props.map (fun prop => prop.key)
  entry : ∀ entry ∈ entries, entry = entryOf entry.key (occurrences props entry.key)

/-- An entry with one more property of its key. -/
def SourceEntry.push (entry : SourceEntry) (prop : PropertyType) : SourceEntry :=
  { entry with
    tys := entry.tys ++ [prop.ty]
    optional := entry.optional && prop.optional
    readonly := entry.readonly || prop.readonly }

variable {entries : List SourceEntry}

theorem addProperty_of_notMem {prop : PropertyType}
    (h : prop.key ∉ entries.map (fun entry => entry.key)) :
    addProperty entries prop = entries ++ [entryOf prop.key [prop]] := by
  induction entries with
  | nil => simp [addProperty, entryOf]
  | cons entry rest ih =>
    rw [map_cons, mem_cons, not_or] at h
    unfold addProperty
    rw [if_neg (by simpa using Ne.symm h.1), ih h.2, cons_append]

theorem addProperty_of_mem {prop : PropertyType}
    (hnodup : (entries.map (fun entry => entry.key)).Nodup)
    (h : prop.key ∈ entries.map (fun entry => entry.key)) :
    addProperty entries prop
      = entries.map (fun entry => if entry.key = prop.key then entry.push prop else entry) := by
  induction entries with
  | nil => cases h
  | cons entry rest ih =>
    rw [map_cons, nodup_cons] at hnodup
    unfold addProperty
    rw [map_cons]
    by_cases hkey : entry.key = prop.key
    · -- no later entry has the key
      have hrest : rest.map (fun other => if other.key = prop.key then other.push prop else other)
          = rest := by
        conv_rhs => rw [← map_id rest]
        apply map_congr_left
        intro other hother
        apply if_neg
        intro heq
        apply hnodup.1
        rw [hkey, ← heq]
        exact mem_map_of_mem hother
      rw [if_pos (by simpa using hkey), if_pos hkey, hrest]
      rfl
    · rw [map_cons, mem_cons] at h
      rw [if_neg (by simpa using hkey), if_neg hkey, ih hnodup.2 (h.resolve_left (Ne.symm hkey))]

theorem occurrences_append (props : List PropertyType) (prop : PropertyType) (key : PropertyKey) :
    occurrences (props ++ [prop]) key
      = occurrences props key ++ if prop.key = key then [prop] else [] := by
  unfold occurrences
  rw [filter_append, filter_singleton]
  simp

/-- Adding a property keeps one entry for each key. -/
theorem Collects.snoc {props : List PropertyType} (h : Collects entries props) (prop : PropertyType) :
    Collects (addProperty entries prop) (props ++ [prop]) := by
  by_cases hin : prop.key ∈ entries.map (fun entry => entry.key)
  · rw [addProperty_of_mem h.nodup hin]
    have hkeys : (entries.map (fun entry =>
        if entry.key = prop.key then entry.push prop else entry)).map (fun entry => entry.key)
        = entries.map (fun entry => entry.key) := by
      rw [List.map_map]
      apply List.map_congr_left
      intro entry _
      dsimp only [Function.comp_apply]
      split <;> rfl
    constructor
    · rw [hkeys]
      exact h.nodup
    · intro key
      rw [hkeys, h.mem_keys, map_append, mem_append]
      constructor
      · exact .inl
      · intro hkey
        rcases hkey with hkey | hkey
        · exact hkey
        · rw [map_singleton, mem_singleton] at hkey
          rw [hkey]
          exact (h.mem_keys _).mp hin
    · intro entry hentry
      obtain ⟨old, hold, rfl⟩ := mem_map.mp hentry
      have heq := h.entry old hold
      by_cases hkey : old.key = prop.key
      · rw [if_pos hkey, occurrences_append]
        have hpush : (old.push prop).key = old.key := rfl
        rw [hpush, if_pos hkey.symm]
        conv_lhs => rw [heq]
        simp [entryOf, SourceEntry.push]
      · rw [if_neg hkey, occurrences_append, if_neg (Ne.symm hkey), append_nil]
        exact heq
  · rw [addProperty_of_notMem hin]
    constructor
    · rw [map_append, nodup_append]
      refine ⟨h.nodup, by simp, ?_⟩
      intro a ha b hb heq
      rw [map_singleton, mem_singleton] at hb
      apply hin
      rw [heq, hb] at ha
      exact ha
    · intro key
      rw [map_append, map_append, mem_append, mem_append, h.mem_keys]
      simp [entryOf]
    · intro entry hentry
      rw [occurrences_append]
      rcases mem_append.mp hentry with hold | hnew
      · have hne : prop.key ≠ entry.key := by
          intro heq
          apply hin
          rw [heq]
          exact mem_map_of_mem hold
        rw [if_neg hne, append_nil]
        exact h.entry entry hold
      · rw [mem_singleton.mp hnew]
        -- the key is new, so the property is its only one
        have hnone : occurrences props prop.key = [] := by
          unfold occurrences
          rw [filter_eq_nil_iff]
          intro other hother heq
          apply hin
          rw [h.mem_keys, ← beq_iff_eq.mp heq]
          exact mem_map_of_mem hother
        have hkey : (entryOf prop.key [prop]).key = prop.key := rfl
        rw [hkey, hnone, if_pos rfl, nil_append]

theorem collects_foldl (props : List PropertyType) : Collects (props.foldl addProperty []) props := by
  induction props using reverseRecOn with
  | nil => exact ⟨nodup_nil, fun _ => Iff.rfl, fun _ h => absurd h (not_mem_nil)⟩
  | append_singleton props prop ih =>
    rw [foldl_append]
    exact ih.snoc prop

/-! ## §4 What is iterated -/

section Iterated

variable {structuralHash : StructuralKey → Nat} {regular : Prop} {σ τ : Interner} {store : Store}

theorem iterableObject_eq_some {id : TypeId} {object : ObjectType} :
    iterableObject store id = some object ↔
      store.objectType id = some object ∧ PlainObject object := by
  unfold iterableObject PlainObject
  rw [filter_eq_some_iff]
  simp

theorem mapM_iterableObject {members : List TypeId} {objects : List ObjectType} :
    members.mapM (iterableObject store) = some objects ↔
      members.mapM store.objectType = some objects ∧ ∀ object ∈ objects, PlainObject object := by
  rw [Lib.mapM_eq_some_iff, Lib.mapM_eq_some_iff]
  constructor
  · intro h
    refine ⟨h.imp (fun _ _ hobject => (iterableObject_eq_some.mp hobject).1), ?_⟩
    intro object hobject
    obtain ⟨member, _, hmember⟩ := Lib.exists_left_of_forall₂ h hobject
    exact (iterableObject_eq_some.mp hmember).2
  · intro h
    obtain ⟨hall, hplain⟩ := h
    induction hall with
    | nil => exact .nil
    | cons hobject _ ih =>
      rw [forall_mem_cons] at hplain
      exact .cons (iterableObject_eq_some.mpr ⟨hobject, hplain.1⟩) (ih hplain.2)

variable {op : Interner → List TypeId → Option (TypeId × Interner)} {props : List PropertyType}

/-- The properties of the combined entries. -/
theorem combineEntries_spec
    (hop : ∀ members, Interner.Interning structuralHash regular (fun σ => op σ members))
    (hσ : σ.Consed structuralHash regular) {entries : List SourceEntry}
    (h : Lib.mapThreaded (combineEntry op) σ entries = some (props, τ)) :
    Interner.Grows structuralHash regular σ τ ∧
      List.Forall₂ (fun entry prop =>
        prop = entry.property prop.ty ∧ op τ entry.tys = some (prop.ty, τ)) entries props := by
  obtain ⟨_, hgrows, hall⟩ := Lib.mapThreaded_spec
    (fun σ : Interner => σ.Consed structuralHash regular)
    (Interner.Grows structuralHash regular)
    (fun (entry : SourceEntry) (prop : PropertyType) σ => σ.Consed structuralHash regular ∧
      prop = entry.property prop.ty ∧ op σ entry.tys = some (prop.ty, σ))
    Interner.Grows.refl (fun _ _ _ => Interner.Grows.trans)
    (fun entry prop s s' hs' hgrows habout =>
      ⟨hs', habout.2.1, (hop entry.tys s habout.1 _ habout.2.2).replay s' hs' hgrows.grown⟩)
    (fun entry _ s prop s' hs hstep => by
      obtain ⟨⟨ty, ρ⟩, hty, heq⟩ := map_eq_some_iff.mp hstep
      rw [Prod.mk.injEq] at heq
      obtain ⟨rfl, rfl⟩ := heq
      have hmade := hop entry.tys s hs _ hty
      have hρ := hmade.grows.consed hs
      exact ⟨hρ, hmade.grows, hρ, rfl, hmade.replay ρ hρ (.refl ρ)⟩)
    hσ h
  exact ⟨hgrows, hall.imp (fun _ _ habout => habout.2)⟩

theorem map_key_of_combined
    {entries : List SourceEntry}
    (h : List.Forall₂ (fun entry prop =>
      prop = entry.property prop.ty ∧ op τ entry.tys = some (prop.ty, τ)) entries props) :
    props.map (fun prop => prop.key) = entries.map (fun entry => entry.key) := by
  induction h with
  | nil => rfl
  | cons hfirst _ ih =>
    rw [map_cons, map_cons, ih, hfirst.1]
    rfl

/-- The three kinds of sources. -/
inductive Iterated (structuralHash : StructuralKey → Nat) (σ : Interner) (source : TypeId)
    (props : List PropertyType) (τ : Interner) : Prop
  | object (object : ObjectType) : σ.store.objectType source = some object →
      PlainObject object → props = object.properties → τ = σ → Iterated structuralHash σ source props τ
  | intersection (members : List TypeId) (objects : List ObjectType) :
      σ.store.intersectionMembers source = some members →
      members.mapM σ.store.objectType = some objects →
      (∀ object ∈ objects, PlainObject object) →
      Lib.mapThreaded (combineEntry (Interner.intersection structuralHash)) σ
        ((objects.flatMap (fun object => object.properties)).foldl addProperty [])
        = some (props, τ) → Iterated structuralHash σ source props τ
  | union (members : List TypeId) (first : ObjectType) (rest : List ObjectType) :
      σ.store.unionMembers source = some members →
      members.mapM σ.store.objectType = some (first :: rest) →
      (∀ object ∈ first :: rest, PlainObject object) →
      Lib.mapThreaded (combineEntry (Interner.union structuralHash)) σ
        (first.properties.filterMap (commonEntry rest)) = some (props, τ) →
      Iterated structuralHash σ source props τ

theorem iterated_of_homomorphic {source : TypeId}
    (h : homomorphicSourceProps structuralHash σ source = some (props, τ)) :
    Iterated structuralHash σ source props τ := by
  unfold homomorphicSourceProps at h
  cases hobject : σ.store.objectType source with
  | some object =>
    rw [hobject] at h
    dsimp only at h
    split at h
    · cases h
    · rename_i hplain
      cases h
      apply Iterated.object object hobject _ rfl rfl
      simpa [PlainObject] using hplain
  | none =>
    rw [hobject] at h
    cases hmembers : σ.store.intersectionMembers source with
    | some members =>
      rw [hmembers] at h
      obtain ⟨objects, hobjects, hcombine⟩ := bind_eq_some_iff.mp h
      rw [mapM_iterableObject] at hobjects
      exact .intersection members objects hmembers hobjects.1 hobjects.2 hcombine
    | none =>
      rw [hmembers] at h
      obtain ⟨members, hunion, hprops⟩ := bind_eq_some_iff.mp h
      obtain ⟨objects, hobjects, hcombine⟩ := bind_eq_some_iff.mp hprops
      rw [mapM_iterableObject] at hobjects
      cases objects with
      | nil => cases hcombine
      | cons first rest => exact .union members first rest hunion hobjects.1 hobjects.2 hcombine

/-- The keys of the entries of a union. -/
theorem map_key_filterMap_commonEntry (props : List PropertyType) (rest : List ObjectType) :
    (props.filterMap (commonEntry rest)).map (fun entry => entry.key)
      = (props.map (fun prop => prop.key)).filter (fun key =>
          rest.all (fun other => (other.propertyByKey key).isSome)) := by
  induction props with
  | nil => rfl
  | cons prop props ih =>
    have hsome : (commonEntry rest prop).isSome
        = rest.all (fun other => (other.propertyByKey prop.key).isSome) := by
      unfold commonEntry
      rw [isSome_map, Lib.isSome_mapM]
    rw [filterMap_cons, map_cons, filter_cons, ← hsome]
    cases hentry : commonEntry rest prop with
    | none => simpa using ih
    | some entry =>
      have hkey : entry.key = prop.key := by
        obtain ⟨found, _, rfl⟩ := map_eq_some_iff.mp hentry
        rfl
      simp [ih, hkey]

/-! ## §5 Iterated keys and `keyof` -/

/-- A condition for each kind of source: on an object, on the members of an intersection, and
    on the first member of a union and the others. -/
structure OnSource (store : Store) (source : TypeId) (object : ObjectType → Prop)
    (intersection : List ObjectType → Prop) (union : ObjectType → List ObjectType → Prop) :
    Prop where
  object : ∀ made, store.objectType source = some made → object made
  intersection : ∀ members objects, store.intersectionMembers source = some members →
    members.mapM store.objectType = some objects → intersection objects
  union : ∀ members first rest, store.unionMembers source = some members →
    members.mapM store.objectType = some (first :: rest) → union first rest

section OnSource

variable {store : Store} {source : TypeId} {object : ObjectType → Prop}
  {intersection : List ObjectType → Prop} {union : ObjectType → List ObjectType → Prop}

theorem onSource_object {made : ObjectType} (hmade : store.objectType source = some made) :
    OnSource store source object intersection union ↔ object made := by
  constructor
  · intro h
    exact h.object made hmade
  · intro h
    constructor
    · intro other hother
      rw [hmade, some.injEq] at hother
      exact hother ▸ h
    · intro members objects hmembers
      have htag := @Store.entry_tag_unique store .objects .intersections source _ _ hmade hmembers
      simp [tag] at htag
    · intro members first rest hmembers
      have htag := @Store.entry_tag_unique store .objects .unions source _ _ hmade hmembers
      simp [tag] at htag

theorem onSource_intersection {members : List TypeId} {objects : List ObjectType}
    (hmembers : store.intersectionMembers source = some members)
    (hobjects : members.mapM store.objectType = some objects) :
    OnSource store source object intersection union ↔ intersection objects := by
  constructor
  · intro h
    exact h.intersection members objects hmembers hobjects
  · intro h
    constructor
    · intro made hmade
      have htag := @Store.entry_tag_unique store .intersections .objects source _ _ hmembers hmade
      simp [tag] at htag
    · intro members' objects' hmembers' hobjects'
      rw [hmembers, some.injEq] at hmembers'
      rw [← hmembers', hobjects, some.injEq] at hobjects'
      exact hobjects' ▸ h
    · intro members' first rest hmembers'
      have htag := @Store.entry_tag_unique store .intersections .unions source _ _ hmembers hmembers'
      simp [tag] at htag

theorem onSource_union {members : List TypeId} {first : ObjectType} {rest : List ObjectType}
    (hmembers : store.unionMembers source = some members)
    (hobjects : members.mapM store.objectType = some (first :: rest)) :
    OnSource store source object intersection union ↔ union first rest := by
  constructor
  · intro h
    exact h.union members first rest hmembers hobjects
  · intro h
    constructor
    · intro made hmade
      have htag := @Store.entry_tag_unique store .unions .objects source _ _ hmembers hmade
      simp [tag] at htag
    · intro members' objects' hmembers'
      have htag := @Store.entry_tag_unique store .unions .intersections source _ _ hmembers hmembers'
      simp [tag] at htag
    · intro members' first' rest' hmembers' hobjects'
      rw [hmembers, some.injEq] at hmembers'
      rw [← hmembers', hobjects, some.injEq, cons.injEq] at hobjects'
      rw [← hobjects'.1, ← hobjects'.2]
      exact h

end OnSource

/-- The condition on a source under which both enumerations name the same keys.  An object has
    no key twice and no key without a public property.  A key of an intersection is public in
    some member.  A common key of a union is public in every member, and the first member has
    it once. -/
def KeysAgree (store : Store) (source : TypeId) : Prop :=
  OnSource store source
    (fun object => (object.properties.map (fun prop => prop.key)).Nodup ∧
      ∀ prop ∈ object.properties, prop.key ∈ publicKeys object)
    (fun objects => ∀ object ∈ objects, ∀ prop ∈ object.properties,
      ∃ other ∈ objects, prop.key ∈ publicKeys other)
    (fun first rest =>
      ((first.properties.map (fun prop => prop.key)).filter (fun key =>
        rest.all (fun other => (other.propertyByKey key).isSome))).Nodup ∧
      ∀ key, (∀ object ∈ first :: rest, key ∈ object.properties.map (fun prop => prop.key)) →
        ∀ object ∈ first :: rest, key ∈ publicKeys object)

theorem mem_keys_of_mem_publicKeys {object : ObjectType} {key : PropertyKey}
    (h : key ∈ publicKeys object) : key ∈ object.properties.map (fun prop => prop.key) := by
  obtain ⟨prop, hprop, heq⟩ := mem_map.mp h
  rw [← heq]
  exact mem_map_of_mem (mem_filter.mp hprop).1

theorem isSome_propertyByKey {object : ObjectType} {key : PropertyKey} :
    (object.propertyByKey key).isSome = true ↔
      key ∈ object.properties.map (fun prop => prop.key) := by
  unfold ObjectType.propertyByKey
  rw [find?_isSome]
  simp

/-- The properties are found where the interner has grown. -/
theorem mapM_objectType_extends (hext : Interner.Extends σ τ) {members : List TypeId}
    {objects : List ObjectType} (h : members.mapM σ.store.objectType = some objects) :
    members.mapM τ.store.objectType = some objects := by
  rw [Lib.mapM_eq_some_iff] at h ⊢
  apply h.imp
  intro member object hobject
  rw [← hobject]
  exact hext.entry_eq ((σ.store.entry_eq_some_iff .objects member object).mp hobject) .objects

/-- **The properties that a mapped type iterates over have the keys that `keyof` names, each
    once, exactly when the keys of the source agree.** -/
theorem homomorphic_keys_iff (hσ : σ.Reachable structuralHash) {source : TypeId}
    {props : List PropertyType} (hprops : homomorphicSourceProps structuralHash σ source
      = some (props, τ)) {fuel : Nat} {keys : TypeId} {υ : Interner}
    (hkeys : keyofOfType structuralHash fuel τ source = some (keys, υ)) :
    ((∀ key, (∃ prop ∈ props, prop.key = key) ↔ NamedKey υ.store keys key) ∧
      (props.map (fun prop => prop.key)).Nodup) ↔ KeysAgree σ.store source := by
  have hknown := hσ.knowsIntrinsics
  have hmem : ∀ key, (∃ prop ∈ props, prop.key = key) ↔
      key ∈ props.map (fun prop => prop.key) := fun key => mem_map.symm
  simp only [hmem]
  cases iterated_of_homomorphic hprops with
  | object object hobject hplain hsame hinterner =>
    rw [hinterner] at hkeys
    obtain ⟨hgrows, hunion⟩ := keyofOfType_object hσ.consed hknown hobject hplain hkeys
    simp only [hunion.namedKey_iff (hknown.mono hgrows.grown), KeysAgree,
      onSource_object hobject, hsame]
    constructor
    · intro h
      refine ⟨h.2, ?_⟩
      intro prop hprop
      exact (h.1 prop.key).mp (mem_map_of_mem hprop)
    · intro h
      refine ⟨fun key => ⟨?_, mem_keys_of_mem_publicKeys⟩, h.1⟩
      intro hkey
      obtain ⟨prop, hprop, rfl⟩ := mem_map.mp hkey
      exact h.2 prop hprop
  | intersection members objects hmembers hobjects hplain hcombine =>
    obtain ⟨hgrown, hall⟩ := combineEntries_spec interning_intersection hσ.consed hcombine
    have hcollects := collects_foldl (objects.flatMap (fun object => object.properties))
    have hτ := hgrown.consed hσ.consed
    have hmembers' : τ.store.intersectionMembers source = some members := by
      rw [← hmembers]
      exact hgrown.grown.entry_eq
        ((σ.store.entry_eq_some_iff .intersections source members).mp hmembers) .intersections
    obtain ⟨hgrows, hunion⟩ := keyofOfType_intersection hτ (hknown.mono hgrown.grown) hmembers'
      (mapM_objectType_extends hgrown.grown hobjects) hplain hkeys
    simp only [hunion.namedKey_iff (hknown.mono (hgrown.trans hgrows).grown),
      KeysAgree, onSource_intersection hmembers hobjects, map_key_of_combined hall, hcollects.mem_keys]
    constructor
    · intro h object hobject prop hprop
      apply (h.1 prop.key).mp
      exact mem_map_of_mem (mem_flatMap_of_mem hobject hprop)
    · intro h
      refine ⟨fun key => ⟨?_, ?_⟩, hcollects.nodup⟩
      · intro hkey
        obtain ⟨prop, hprop, rfl⟩ := mem_map.mp hkey
        obtain ⟨object, hobject, hin⟩ := mem_flatMap.mp hprop
        exact h object hobject prop hin
      · intro hkey
        obtain ⟨object, hobject, hin⟩ := hkey
        obtain ⟨prop, hprop, rfl⟩ := mem_map.mp (mem_keys_of_mem_publicKeys hin)
        exact mem_map_of_mem (mem_flatMap_of_mem hobject hprop)
  | union members first rest hmembers hobjects hplain hcombine =>
    obtain ⟨hgrown, hall⟩ := combineEntries_spec interning_union hσ.consed hcombine
    have hτ := hgrown.consed hσ.consed
    have hmembers' : τ.store.unionMembers source = some members := by
      rw [← hmembers]
      exact hgrown.grown.entry_eq
        ((σ.store.entry_eq_some_iff .unions source members).mp hmembers) .unions
    obtain ⟨hgrows, hunion⟩ := keyofOfType_union hτ (hknown.mono hgrown.grown) hmembers'
      (by simp) (mapM_objectType_extends hgrown.grown hobjects) hplain hkeys
    -- the iterated keys are those that every member has
    have hcommon : ∀ key, key ∈ (first.properties.map (fun prop => prop.key)).filter (fun key =>
        rest.all (fun other => (other.propertyByKey key).isSome)) ↔
        ∀ object ∈ first :: rest, key ∈ object.properties.map (fun prop => prop.key) := by
      intro key
      rw [List.mem_filter, List.all_eq_true, List.forall_mem_cons]
      simp only [isSome_propertyByKey]
    simp only [hunion.namedKey_iff (hknown.mono (hgrown.trans hgrows).grown),
      KeysAgree, onSource_union hmembers hobjects, map_key_of_combined hall,
      map_key_filterMap_commonEntry, hcommon]
    constructor
    · intro h
      exact ⟨h.2, fun key hkey => (h.1 key).mp hkey⟩
    · intro h
      refine ⟨fun key => ⟨h.2 key, ?_⟩, h.1⟩
      intro hpublic object hobject
      exact mem_keys_of_mem_publicKeys (hpublic object hobject)

/-- The interner after making an object with one property `x` of type `string`. -/
theorem object_with_property_made (visibility : Visibility) : ∃ σ, σ.Reachable (fun _ => 0) ∧
    σ.store.objectType 19
      = some { properties := [{ key := .string "x", ty := 9, visibility := visibility }] } ∧
    homomorphicSourceProps (fun _ => 0) σ 19
      = some ([{ key := .string "x", ty := 9, visibility := visibility }], σ) ∧
    ∃ keys υ, keyofOfType (fun _ => 0) 1 σ 19 = some (keys, υ) ∧
      υ.store.unionMembers keys = none ∧
      (visibility = .privateAccess → υ.store.row keys = some (.intrinsic .never)) := by
  obtain ⟨reached, hrun, hobject, hkeys⟩ := exists_of_run
    (r := runHistory (fun _ => 0) 0 [.internObject
      { properties := [{ key := .string "x", ty := 9, visibility := visibility }] }]
      (withIntrinsics (fun _ => 0)))
    (P := fun reached => reached.2.store.objectType 19
        = some { properties := [{ key := .string "x", ty := 9, visibility := visibility }] } ∧
      (keyofOfType (fun _ => 0) 1 reached.2 19).map (fun made =>
        (made.2.store.unionMembers made.1, made.2.store.row made.1))
        = some (none, some (if visibility = .publicAccess then .literal (.string "x")
          else .intrinsic .never))) (by cases visibility <;> decide +kernel)
  obtain ⟨⟨keys, υ⟩, hmade, heq⟩ := map_eq_some_iff.mp hkeys
  rw [Prod.mk.injEq] at heq
  refine ⟨reached.2, ⟨0, _, reached.1, hrun⟩, hobject, ?_, keys, υ, hmade, heq.1, ?_⟩
  · unfold homomorphicSourceProps
    rw [hobject]
    rfl
  · intro hprivate
    rw [heq.2, hprivate]
    rfl

/-- The private `x` is iterated, and `keyof` does not name it. -/
theorem private_key_iterated :
    ∃ σ : Interner, ∃ props τ keys υ, σ.Reachable (fun _ => 0) ∧
      homomorphicSourceProps (fun _ => 0) σ 19 = some (props, τ) ∧
      keyofOfType (fun _ => 0) 1 τ 19 = some (keys, υ) ∧
      ¬ ((∀ key, (∃ prop ∈ props, prop.key = key) ↔ NamedKey υ.store keys key) ∧
        (props.map (fun prop => prop.key)).Nodup) := by
  obtain ⟨σ, hσ, _, hprops, keys, υ, hkeys, hmembers, hnever⟩ :=
    object_with_property_made .privateAccess
  refine ⟨σ, _, σ, keys, υ, hσ, hprops, hkeys, ?_⟩
  intro h
  obtain ⟨member, hmember, hrow⟩ := (h.1 (.string "x")).mp ⟨_, mem_singleton_self _, rfl⟩
  rw [expand_of_none hmembers, mem_singleton] at hmember
  rw [hmember, hnever rfl] at hrow
  cases hrow

/-- The two sides for the same object with a public `x`. -/
theorem homomorphic_keys_iff_public :
    ∃ σ : Interner, ∃ props τ keys υ,
      homomorphicSourceProps (fun _ => 0) σ 19 = some (props, τ) ∧
      keyofOfType (fun _ => 0) 1 τ 19 = some (keys, υ) ∧
      (((∀ key, (∃ prop ∈ props, prop.key = key) ↔ NamedKey υ.store keys key) ∧
        (props.map (fun prop => prop.key)).Nodup) ↔ KeysAgree σ.store 19) := by
  obtain ⟨σ, hσ, _, hprops, keys, υ, hkeys, _⟩ := object_with_property_made .publicAccess
  exact ⟨σ, _, σ, keys, υ, hprops, hkeys, homomorphic_keys_iff hσ hprops hkeys⟩

/-! ## §6 Iterated and looked up properties -/

/-- The same type and the same modifiers. -/
def SameValue (p q : PropertyType) : Prop :=
  p.ty = q.ty ∧ p.optional = q.optional ∧ p.readonly = q.readonly

theorem property_eq_propertyByKey (object : ObjectType) (name : String) :
    object.property name = object.propertyByKey (.string name) := by
  unfold ObjectType.property ObjectType.propertyByKey
  congr 1
  funext prop
  cases prop.key <;> simp [PropertyKey.asString]

theorem namedSourceProperty_of_plain {object : ObjectType} (h : PlainObject object) (name : String) :
    namedSourceProperty name object = object.propertyByKey (.string name) := by
  unfold namedSourceProperty
  rw [h.1, map_none, or_none, property_eq_propertyByKey]

/-- The members of a plain source are looked up by the key. -/
theorem memberSourceProperties_of_plain {members : List TypeId} {objects : List ObjectType}
    (hobjects : members.mapM store.objectType = some objects)
    (hplain : ∀ object ∈ objects, PlainObject object) (name : String) :
    memberSourceProperties store name members
      = objects.mapM (fun object : ObjectType => object.propertyByKey (.string name)) := by
  unfold memberSourceProperties
  rw [Lib.mapM_eq_some_iff] at hobjects
  induction hobjects with
  | nil => rfl
  | cons hobject _ ih =>
    rw [forall_mem_cons] at hplain
    rw [mapM_cons, mapM_cons, hobject, bind_some,
      namedSourceProperty_of_plain hplain.1, ih hplain.2]

theorem mem_of_propertyByKey {object : ObjectType} {key : PropertyKey} {prop : PropertyType}
    (h : object.propertyByKey key = some prop) : prop ∈ object.properties ∧ prop.key = key :=
  ⟨mem_of_find?_eq_some h, by simpa using find?_some h⟩

/-- **A combined property is the one that is looked up exactly when the two lists of types have
    one form and the modifiers are the same.** -/
theorem same_value_iff
    {form : List TypeId → List TypeId} {entry : SourceEntry} {tys : List TypeId}
    (hform : ∀ x y υ, op τ entry.tys = some (x, τ) → op τ tys = some (y, υ) →
      (x = y ↔ form entry.tys = form tys))
    (htotal : ∃ y υ, op τ tys = some (y, υ)) {prop : PropertyType}
    (hprop : prop = entry.property prop.ty) (hop : op τ entry.tys = some (prop.ty, τ))
    (key : PropertyKey) (optional readonly : Bool) :
    (∃ q υ, (op τ tys).map (fun (ty, σ) =>
        (({ key, ty, optional, readonly } : PropertyType), σ)) = some (q, υ) ∧
        SameValue prop q) ↔
      form entry.tys = form tys ∧ entry.optional = optional ∧ entry.readonly = readonly := by
  obtain ⟨y, υ, hy⟩ := htotal
  have hoptional : prop.optional = entry.optional := by
    rw [hprop]
    rfl
  have hreadonly : prop.readonly = entry.readonly := by
    rw [hprop]
    rfl
  rw [hy, map_some, ← hform _ _ _ hop hy]
  unfold SameValue
  rw [hoptional, hreadonly]
  constructor
  · intro h
    obtain ⟨q, υ', heq, hsame⟩ := h
    rw [some.injEq, Prod.mk.injEq] at heq
    rw [← heq.1] at hsame
    exact hsame
  · intro h
    exact ⟨_, υ, rfl, h⟩

/-- The condition on a source under which every iterated property with a string key is the one
    that is looked up.  The properties of an object that share a key have one type and the same
    modifiers.  A key of an intersection is a key of every member, and all its properties
    combine to the same as the first one of each member.  A repeated common key of the first
    member of a union combines to the same as its first property. -/
def PicksAgree (σ : Interner) (source : TypeId) : Prop :=
  OnSource σ.store source
    (fun object => ∀ p ∈ object.properties, ∀ q ∈ object.properties, ∀ name,
      p.key = .string name → q.key = .string name → SameValue p q)
    (fun objects => ∀ object ∈ objects, ∀ p ∈ object.properties, ∀ name, p.key = .string name →
      ∃ found, objects.mapM (fun object : ObjectType => object.propertyByKey (.string name))
          = some found ∧
        let all := occurrences (objects.flatMap (fun object => object.properties)) (.string name)
        σ.intersectionForm (Interner.flattened σ.store.intersectionMembers
            (all.map (fun prop => prop.ty)))
          = σ.intersectionForm (Interner.flattened σ.store.intersectionMembers
            (found.map (fun prop => prop.ty))) ∧
        all.all (fun prop => prop.optional) = found.all (fun prop => prop.optional) ∧
        all.any (fun prop => prop.readonly) = found.any (fun prop => prop.readonly))
    (fun first rest => ∀ p ∈ first.properties, ∀ name, p.key = .string name →
      ∀ q, first.propertyByKey (.string name) = some q →
      ∀ found, rest.mapM (fun other : ObjectType => other.propertyByKey (.string name))
          = some found →
        σ.unionForm (Interner.flattened σ.store.unionMembers
            (p.ty :: found.map (fun prop => prop.ty)))
          = σ.unionForm (Interner.flattened σ.store.unionMembers
            (q.ty :: found.map (fun prop => prop.ty))) ∧
        (p.optional || found.any (fun prop => prop.optional))
          = (q.optional || found.any (fun prop => prop.optional)) ∧
        (p.readonly || found.any (fun prop => prop.readonly))
          = (q.readonly || found.any (fun prop => prop.readonly)))

/-- The types of the properties denote rows. -/
def PropertiesDenote (store : Store) : Prop :=
  ∀ id object, store.objectType id = some object → ∀ prop ∈ object.properties,
    ∃ r, store.row prop.ty = some r

theorem denote_of_mapM (hdenote : PropertiesDenote store) {members : List TypeId}
    {objects : List ObjectType} (hobjects : members.mapM store.objectType = some objects)
    {object : ObjectType} (hobject : object ∈ objects) {prop : PropertyType}
    (hprop : prop ∈ object.properties) : ∃ r, store.row prop.ty = some r := by
  rw [Lib.mapM_eq_some_iff] at hobjects
  obtain ⟨member, _, hmember⟩ := Lib.exists_left_of_forall₂ hobjects hobject
  exact hdenote member object hmember prop hprop

/-- The properties found under one key are properties of the objects. -/
theorem denote_of_found {objects : List ObjectType} {key : PropertyKey} {found : List PropertyType}
    (hfound : objects.mapM (fun object : ObjectType => object.propertyByKey key) = some found)
    (hdenote : ∀ object ∈ objects, ∀ prop ∈ object.properties, ∃ r, store.row prop.ty = some r) :
    ∀ ty ∈ found.map (fun prop => prop.ty), ∃ r, store.row ty = some r := by
  rw [Lib.mapM_eq_some_iff] at hfound
  intro ty hty
  obtain ⟨prop, hprop, rfl⟩ := mem_map.mp hty
  obtain ⟨object, hobject, hby⟩ := Lib.exists_left_of_forall₂ hfound hprop
  exact hdenote object hobject prop (mem_of_propertyByKey hby).1

/-- The look-up in an intersection of plain objects. -/
theorem modifiersSourceProperty_intersection {source : TypeId} {members : List TypeId}
    {objects : List ObjectType} (hmembers : τ.store.intersectionMembers source = some members)
    (hobjects : members.mapM τ.store.objectType = some objects)
    (hplain : ∀ object ∈ objects, PlainObject object) (name : String) :
    modifiersSourceProperty structuralHash τ source name
      = (objects.mapM (fun object : ObjectType => object.propertyByKey (.string name))).bind
        (fun found => (τ.intersection structuralHash (found.map (fun prop => prop.ty))).map
          (fun (ty, σ) => (({
            key := .string name
            ty
            optional := found.all (fun prop => prop.optional)
            readonly := found.any (fun prop => prop.readonly) } : PropertyType), σ))) := by
  have hobject : τ.store.objectType source = none :=
    @Store.entry_eq_none_of_entry _ .intersections .objects _ _ hmembers (by simp [tag])
  unfold modifiersSourceProperty intersectionSourceProperty
  rw [hobject, bind_none, hmembers]
  dsimp only
  rw [memberSourceProperties_of_plain hobjects hplain]

/-- The look-up in a union of plain objects. -/
theorem modifiersSourceProperty_union {source : TypeId} {members : List TypeId}
    {objects : List ObjectType} (hmembers : τ.store.unionMembers source = some members)
    (hobjects : members.mapM τ.store.objectType = some objects)
    (hplain : ∀ object ∈ objects, PlainObject object) (name : String) :
    modifiersSourceProperty structuralHash τ source name
      = (objects.mapM (fun object : ObjectType => object.propertyByKey (.string name))).bind
        (fun found => (τ.union structuralHash (found.map (fun prop => prop.ty))).map
          (fun (ty, σ) => (({
            key := .string name
            ty
            optional := found.any (fun prop => prop.optional)
            readonly := found.any (fun prop => prop.readonly) } : PropertyType), σ))) := by
  have hobject : τ.store.objectType source = none :=
    @Store.entry_eq_none_of_entry _ .unions .objects _ _ hmembers (by simp [tag])
  have hintersection : τ.store.intersectionMembers source = none :=
    @Store.entry_eq_none_of_entry _ .unions .intersections _ _ hmembers (by simp [tag])
  unfold modifiersSourceProperty unionSourceProperty
  rw [hobject, bind_none, hintersection]
  rw [hmembers, bind_some, memberSourceProperties_of_plain hobjects hplain]

section Picked

variable (hσ : σ.Consed structuralHash regular) (hknown : σ.KnowsIntrinsics)
  (hgrown : Interner.Grows structuralHash regular σ τ) {source : TypeId} {members : List TypeId}
  {objects : List ObjectType} (hobjects : members.mapM σ.store.objectType = some objects)
  (hplain : ∀ object ∈ objects, PlainObject object)
  (hdenote : ∀ object ∈ objects, ∀ prop ∈ object.properties, ∃ r, σ.store.row prop.ty = some r)
  {entry : SourceEntry} (htys : ∀ ty ∈ entry.tys, ∃ r, σ.store.row ty = some r)
  {prop : PropertyType} (hprop : prop = entry.property prop.ty)
include hσ hknown hgrown hobjects hplain hdenote htys hprop

/-- One combined property of an intersection and the one that is looked up. -/
theorem intersection_pick_iff (hmembers : σ.store.intersectionMembers source = some members)
    (hop : τ.intersection structuralHash entry.tys = some (prop.ty, τ)) (name : String) :
    (∃ q υ, modifiersSourceProperty structuralHash τ source name = some (q, υ) ∧
        SameValue prop q) ↔
      ∃ found, objects.mapM (fun object : ObjectType => object.propertyByKey (.string name))
          = some found ∧
        σ.intersectionForm (flattened σ.store.intersectionMembers entry.tys)
          = σ.intersectionForm (flattened σ.store.intersectionMembers
            (found.map (fun prop => prop.ty))) ∧
        entry.optional = found.all (fun prop => prop.optional) ∧
        entry.readonly = found.any (fun prop => prop.readonly) := by
  have hext := hgrown.grown
  have hτ := hgrown.consed hσ
  have hmembers' : τ.store.intersectionMembers source = some members := by
    rw [← hmembers]
    exact hext.entry_eq
      ((σ.store.entry_eq_some_iff .intersections source members).mp hmembers) .intersections
  rw [modifiersSourceProperty_intersection hmembers' (mapM_objectType_extends hext hobjects) hplain]
  cases hfound : objects.mapM (fun object : ObjectType => object.propertyByKey (.string name)) with
  | none => simp
  | some found =>
    have hrows := denote_of_found hfound hdenote
    have hsame := @same_value_iff τ (intersection structuralHash)
      (fun tys => σ.intersectionForm (flattened σ.store.intersectionMembers tys))
      entry (found.map (fun prop => prop.ty))
      (by
        intro x y υ hx hy
        rw [intersection_eq_iff_form hτ (hknown.mono hext)
          (rows_extends hext htys) (rows_extends hext hrows) hx hy,
          intersectionForm_extends hσ hext htys,
          intersectionForm_extends hσ hext hrows])
      ⟨_, _, intersection_eq structuralHash hτ (hknown.mono hext)
        (rows_extends hext hrows)⟩
      prop hprop hop (.string name) (found.all (fun prop => prop.optional))
      (found.any (fun prop => prop.readonly))
    rw [bind_some, hsame]
    simp

/-- One combined property of a union and the one that is looked up. -/
theorem union_pick_iff
    (hmembers : σ.store.unionMembers source = some members)
    (hop : τ.union structuralHash entry.tys = some (prop.ty, τ)) {name : String}
    {found : List PropertyType}
    (hfound : objects.mapM (fun object : ObjectType => object.propertyByKey (.string name))
      = some found) :
    (∃ q υ, modifiersSourceProperty structuralHash τ source name = some (q, υ) ∧
        SameValue prop q) ↔
      σ.unionForm (flattened σ.store.unionMembers entry.tys)
        = σ.unionForm (flattened σ.store.unionMembers
          (found.map (fun prop => prop.ty))) ∧
      entry.optional = found.any (fun prop => prop.optional) ∧
      entry.readonly = found.any (fun prop => prop.readonly) := by
  have hext := hgrown.grown
  have hτ := hgrown.consed hσ
  have hmembers' : τ.store.unionMembers source = some members := by
    rw [← hmembers]
    exact hext.entry_eq ((σ.store.entry_eq_some_iff .unions source members).mp hmembers) .unions
  have hrows := denote_of_found hfound hdenote
  rw [modifiersSourceProperty_union hmembers' (mapM_objectType_extends hext hobjects) hplain,
    hfound, bind_some]
  apply @same_value_iff τ (union structuralHash)
    (fun tys => σ.unionForm (flattened σ.store.unionMembers tys))
    entry (found.map (fun prop => prop.ty)) _ _ prop hprop hop
  · intro x y υ hx hy
    rw [union_eq_iff_form hτ (hknown.mono hext) (rows_extends hext htys)
      (rows_extends hext hrows) hx hy, unionForm_extends hext htys,
      unionForm_extends hext hrows]
  · exact ⟨_, _, (union_eq structuralHash hτ (rows_extends hext hrows)).1⟩

end Picked

theorem picks_object {source : TypeId} {object : ObjectType}
    (hobject : σ.store.objectType source = some object) (hplain : PlainObject object) :
    (∀ p ∈ object.properties, ∀ name, p.key = .string name →
      ∃ q υ, modifiersSourceProperty structuralHash σ source name = some (q, υ) ∧
        SameValue p q) ↔ PicksAgree σ source := by
  unfold PicksAgree
  rw [onSource_object hobject]
  have hmodifiers : ∀ name q, object.propertyByKey (.string name) = some q →
      modifiersSourceProperty structuralHash σ source name = some (q, σ) := by
    intro name q hq
    unfold modifiersSourceProperty
    rw [hobject, bind_some, namedSourceProperty_of_plain hplain, hq]
  have hfirst : ∀ p ∈ object.properties, ∀ name, p.key = .string name →
      ∃ q, object.propertyByKey (.string name) = some q := by
    intro p hp name hkey
    rw [← isSome_iff_exists, isSome_propertyByKey, ← hkey]
    exact mem_map_of_mem hp
  constructor
  · intro h p hp q hq name hpkey hqkey
    obtain ⟨first, hfirst⟩ := hfirst p hp name hpkey
    obtain ⟨_, _, hpicked, hp₁, hp₂, hp₃⟩ := h p hp name hpkey
    obtain ⟨_, _, hpicked', hq₁, hq₂, hq₃⟩ := h q hq name hqkey
    rw [hmodifiers name first hfirst] at hpicked hpicked'
    cases hpicked
    cases hpicked'
    exact ⟨hp₁.trans hq₁.symm, hp₂.trans hq₂.symm, hp₃.trans hq₃.symm⟩
  · intro h p hp name hkey
    obtain ⟨first, hfirst⟩ := hfirst p hp name hkey
    have hmem := mem_of_propertyByKey hfirst
    exact ⟨first, σ, hmodifiers name first hfirst, h p hp first hmem.1 name hkey hmem.2⟩

section Picks

variable (hσ : σ.Consed structuralHash regular) (hknown : σ.KnowsIntrinsics)
  (hdenote : PropertiesDenote σ.store) {source : TypeId} {props : List PropertyType}
  {members : List TypeId}
include hσ hknown hdenote

theorem picks_intersection {objects : List ObjectType}
    (hmembers : σ.store.intersectionMembers source = some members)
    (hobjects : members.mapM σ.store.objectType = some objects)
    (hplain : ∀ object ∈ objects, PlainObject object)
    (hcombine : Lib.mapThreaded (combineEntry (intersection structuralHash)) σ
      ((objects.flatMap (fun object => object.properties)).foldl addProperty [])
      = some (props, τ)) :
    (∀ p ∈ props, ∀ name, p.key = .string name →
      ∃ q υ, modifiersSourceProperty structuralHash τ source name = some (q, υ) ∧
        SameValue p q) ↔ PicksAgree σ source := by
  obtain ⟨hgrown, hall⟩ := combineEntries_spec interning_intersection hσ hcombine
  have hcollects := collects_foldl (objects.flatMap (fun object => object.properties))
  have hrows : ∀ object ∈ objects, ∀ prop ∈ object.properties,
      ∃ r, σ.store.row prop.ty = some r :=
    fun object hobject prop hprop => denote_of_mapM hdenote hobjects hobject hprop
  -- at each key the two sides read the same occurrences
  have hpick := fun entry htys prop hprop hop name =>
    @intersection_pick_iff structuralHash regular σ τ hσ hknown hgrown source members objects
      hobjects hplain hrows entry htys prop hprop hmembers hop name
  have hoccur : ∀ key, ∀ ty ∈ (entryOf key (occurrences
      (objects.flatMap (fun object => object.properties)) key)).tys,
      ∃ r, σ.store.row ty = some r := by
    intro key ty hty
    obtain ⟨prop, hprop, rfl⟩ := mem_map.mp hty
    obtain ⟨object, hobject, hin⟩ := mem_flatMap.mp (mem_filter.mp hprop).1
    exact hrows object hobject prop hin
  unfold PicksAgree
  rw [onSource_intersection hmembers hobjects]
  constructor
  · intro h object hobject p hp name hkey
    have hin : PropertyKey.string name ∈ (objects.flatMap (fun object => object.properties)).map
        (fun prop => prop.key) := by
      rw [← hkey]
      exact mem_map_of_mem (mem_flatMap_of_mem hobject hp)
    obtain ⟨entry, hentry, hkey'⟩ := mem_map.mp ((hcollects.mem_keys _).mpr hin)
    obtain ⟨prop, hprop, heq, hop⟩ := Lib.exists_right_of_forall₂ hall hentry
    have hpropKey : prop.key = .string name := by
      rw [heq]
      exact hkey'
    have hform := hcollects.entry entry hentry
    rw [hkey'] at hform
    rw [hform] at heq hop
    exact (hpick _ (hoccur _) prop heq hop name).mp (h prop hprop name hpropKey)
  · intro h prop hprop name hkey
    obtain ⟨entry, hentry, heq, hop⟩ := Lib.exists_left_of_forall₂ hall hprop
    have hkey' : entry.key = .string name := by
      rw [heq] at hkey
      exact hkey
    have hin := (hcollects.mem_keys entry.key).mp (mem_map_of_mem hentry)
    obtain ⟨p, hp, hpkey⟩ := mem_map.mp hin
    obtain ⟨object, hobject, hpin⟩ := mem_flatMap.mp hp
    have hform := hcollects.entry entry hentry
    rw [hkey'] at hform
    rw [hform] at heq hop
    exact (hpick _ (hoccur _) prop heq hop name).mpr
      (h object hobject p hpin name (hpkey.trans hkey'))

theorem picks_union {first : ObjectType} {rest : List ObjectType}
    (hmembers : σ.store.unionMembers source = some members)
    (hobjects : members.mapM σ.store.objectType = some (first :: rest))
    (hplain : ∀ object ∈ first :: rest, PlainObject object)
    (hcombine : Lib.mapThreaded (combineEntry (union structuralHash)) σ
      (first.properties.filterMap (commonEntry rest)) = some (props, τ)) :
    (∀ p ∈ props, ∀ name, p.key = .string name →
      ∃ q υ, modifiersSourceProperty structuralHash τ source name = some (q, υ) ∧
        SameValue p q) ↔ PicksAgree σ source := by
  obtain ⟨hgrown, hall⟩ := combineEntries_spec interning_union hσ hcombine
  have hrows : ∀ object ∈ first :: rest, ∀ prop ∈ object.properties,
      ∃ r, σ.store.row prop.ty = some r :=
    fun object hobject prop hprop => denote_of_mapM hdenote hobjects hobject hprop
  -- a common property of the first member and the first properties of its key
  have hpick : ∀ p ∈ first.properties, ∀ name, p.key = .string name → ∀ found,
      rest.mapM (fun other : ObjectType => other.propertyByKey (.string name)) = some found →
      ∀ q, first.propertyByKey (.string name) = some q → ∃ entry,
        commonEntry rest p = some entry ∧ ∀ prop, prop = entry.property prop.ty →
        τ.union structuralHash entry.tys = some (prop.ty, τ) →
        ((∃ q υ, modifiersSourceProperty structuralHash τ source name = some (q, υ) ∧
          SameValue prop q) ↔
        σ.unionForm (flattened σ.store.unionMembers
            (p.ty :: found.map (fun prop => prop.ty)))
          = σ.unionForm (flattened σ.store.unionMembers
            (q.ty :: found.map (fun prop => prop.ty))) ∧
        (p.optional || found.any (fun prop => prop.optional))
          = (q.optional || found.any (fun prop => prop.optional)) ∧
        (p.readonly || found.any (fun prop => prop.readonly))
          = (q.readonly || found.any (fun prop => prop.readonly))) := by
    intro p hp name hkey found hfound q hq
    refine ⟨_, by rw [commonEntry, hkey, hfound, map_some], ?_⟩
    intro prop hprop hop
    have hrest : ∀ ty ∈ found.map (fun prop => prop.ty), ∃ r, σ.store.row ty = some r :=
      denote_of_found hfound (fun object hobject =>
        hrows object (mem_cons_of_mem _ hobject))
    have hboth : (first :: rest).mapM (fun object : ObjectType =>
        object.propertyByKey (.string name)) = some (q :: found) := by
      rw [mapM_cons, hq, hfound]
      rfl
    have htys : ∀ ty ∈ p.ty :: found.map (fun prop => prop.ty), ∃ r, σ.store.row ty = some r :=
      forall_mem_cons.mpr ⟨hrows first mem_cons_self p hp, hrest⟩
    exact union_pick_iff hσ hknown hgrown hobjects hplain hrows htys hprop hmembers hop hboth
  unfold PicksAgree
  rw [onSource_union hmembers hobjects]
  constructor
  · intro h p hp name hkey q hq found hfound
    obtain ⟨entry, hentry, hiff⟩ := hpick p hp name hkey found hfound q hq
    obtain ⟨prop, hprop, heq, hop⟩ := Lib.exists_right_of_forall₂ hall
      (mem_filterMap.mpr ⟨p, hp, hentry⟩)
    have hentryKey : entry.key = p.key := by
      obtain ⟨_, _, rfl⟩ := map_eq_some_iff.mp hentry
      rfl
    have hpropKey : prop.key = .string name := by
      rw [heq, ← hkey, ← hentryKey]
      rfl
    exact (hiff prop heq hop).mp (h prop hprop name hpropKey)
  · intro h prop hprop name hkey
    obtain ⟨entry, hin, heq, hop⟩ := Lib.exists_left_of_forall₂ hall hprop
    obtain ⟨p, hp, hentry⟩ := mem_filterMap.mp hin
    obtain ⟨found, hfound, hmade⟩ := map_eq_some_iff.mp hentry
    have hpkey : p.key = .string name := by
      rw [heq, ← hmade] at hkey
      exact hkey
    rw [hpkey] at hfound
    have hsome : (first.propertyByKey (.string name)).isSome = true := by
      rw [isSome_propertyByKey, ← hpkey]
      exact mem_map_of_mem hp
    obtain ⟨q, hq⟩ := isSome_iff_exists.mp hsome
    obtain ⟨entry', hentry', hiff⟩ := hpick p hp name hpkey found hfound q hq
    rw [hentry, some.injEq] at hentry'
    rw [hentry'] at heq hop
    exact (hiff prop heq hop).mpr (h p hp name hpkey q hq found hfound)

end Picks

/-- **Every property with a string key that a mapped type iterates over is the one that is
    looked up under its key, exactly when the properties of the source agree.** -/
theorem picks_agree_iff (hσ : σ.Reachable structuralHash) (hdenote : PropertiesDenote σ.store)
    {source : TypeId} {props : List PropertyType}
    (hprops : homomorphicSourceProps structuralHash σ source = some (props, τ)) :
    (∀ p ∈ props, ∀ name, p.key = .string name →
      ∃ q υ, modifiersSourceProperty structuralHash τ source name = some (q, υ) ∧
        SameValue p q) ↔ PicksAgree σ source := by
  have hknown := hσ.knowsIntrinsics
  cases iterated_of_homomorphic hprops with
  | object object hobject hplain hsame hinterner =>
    rw [hsame, hinterner]
    exact picks_object hobject hplain
  | intersection members objects hmembers hobjects hplain hcombine =>
    exact picks_intersection hσ.consed hknown hdenote hmembers hobjects hplain hcombine
  | union members first rest hmembers hobjects hplain hcombine =>
    exact picks_union hσ.consed hknown hdenote hmembers hobjects hplain hcombine

/-- The interner after making `{ a: string } & { b: number }`. -/
theorem intersection_of_two_made : ∃ σ props τ, σ.Reachable (fun _ => 0) ∧
    homomorphicSourceProps (fun _ => 0) σ 21 = some (props, τ) ∧
    props.map (fun prop => prop.key) = [.string "a", .string "b"] ∧
    (modifiersSourceProperty (fun _ => 0) τ 21 "a").isSome = false := by
  obtain ⟨reached, hrun, hprops⟩ := exists_of_run
    (r := runHistory (fun _ => 0) 0
      [.internObject { properties := [{ key := .string "a", ty := 9 }] },
        .internObject { properties := [{ key := .string "b", ty := 8 }] }, .intersection [19, 20]]
      (withIntrinsics (fun _ => 0)))
    (P := fun reached => (homomorphicSourceProps (fun _ => 0) reached.2 21).map (fun made =>
        (made.1.map (fun prop => prop.key),
          (modifiersSourceProperty (fun _ => 0) made.2 21 "a").isSome))
        = some ([.string "a", .string "b"], false)) (by decide +kernel)
  obtain ⟨⟨props, τ⟩, hmade, heq⟩ := map_eq_some_iff.mp hprops
  rw [Prod.mk.injEq] at heq
  exact ⟨reached.2, props, τ, ⟨0, _, reached.1, hrun⟩, hmade, heq.1, heq.2⟩

/-- The key `a` of `{ a: string } & { b: number }` is iterated, and it is not looked up because
    the other member lacks it. -/
theorem pick_of_intersection_missing :
    ∃ σ : Interner, ∃ props τ, σ.Reachable (fun _ => 0) ∧
      homomorphicSourceProps (fun _ => 0) σ 21 = some (props, τ) ∧
      ¬ ∀ p ∈ props, ∀ name, p.key = .string name →
        ∃ q υ, modifiersSourceProperty (fun _ => 0) τ 21 name = some (q, υ) ∧ SameValue p q := by
  obtain ⟨σ, props, τ, hσ, hprops, hkeys, hmissing⟩ := intersection_of_two_made
  refine ⟨σ, props, τ, hσ, hprops, ?_⟩
  intro h
  have hin : PropertyKey.string "a" ∈ props.map (fun prop => prop.key) := by simp [hkeys]
  obtain ⟨p, hp, hkey⟩ := mem_map.mp hin
  obtain ⟨q, υ, hpicked, _⟩ := h p hp "a" hkey
  rw [hpicked] at hmissing
  cases hmissing

/-- Types that denote rows, checked id by id. -/
theorem propertiesDenote_of_all (hσ : σ.Consed structuralHash regular)
    (h : (range σ.store.len).all (fun id => (σ.store.objectType id).all (fun object =>
      object.properties.all (fun prop => (σ.store.row prop.ty).isSome))) = true) :
    PropertiesDenote σ.store := by
  intro id object hobject prop hprop
  have hrow := (σ.store.entry_eq_some_iff .objects id object).mp hobject
  have hlt : id < σ.store.len := hσ.wellFormed.lt_of_row hrow
  have hall := all_eq_true.mp h id (mem_range.mpr hlt)
  rw [hobject] at hall
  exact isSome_iff_exists.mp (all_eq_true.mp hall prop hprop)

/-- The two sides for an object with one property. -/
theorem picks_agree_iff_object :
    ∃ σ : Interner, ∃ props τ, homomorphicSourceProps (fun _ => 0) σ 19 = some (props, τ) ∧
      ((∀ p ∈ props, ∀ name, p.key = .string name →
        ∃ q υ, modifiersSourceProperty (fun _ => 0) τ 19 name = some (q, υ) ∧ SameValue p q) ↔
      PicksAgree σ 19) := by
  obtain ⟨reached, hrun, hobject, hall⟩ := exists_of_run
    (r := runHistory (fun _ => 0) 0
      [.internObject { properties := [{ key := .string "x", ty := 9 }] }]
      (withIntrinsics (fun _ => 0)))
    (P := fun reached => reached.2.store.objectType 19
        = some { properties := [{ key := .string "x", ty := 9 }] } ∧
      (range reached.2.store.len).all (fun id => (reached.2.store.objectType id).all
        (fun object => object.properties.all (fun prop =>
          (reached.2.store.row prop.ty).isSome))) = true) (by decide +kernel)
  have hreach : reached.2.Reachable (fun _ => 0) := ⟨0, _, reached.1, hrun⟩
  have hdenote := propertiesDenote_of_all hreach.consed hall
  have hprops : homomorphicSourceProps (fun _ => 0) reached.2 19
      = some ([{ key := .string "x", ty := 9 }], reached.2) := by
    unfold homomorphicSourceProps
    rw [hobject]
    rfl
  exact ⟨reached.2, _, reached.2, hprops, picks_agree_iff hreach hdenote hprops⟩

end Iterated

end Typokat.Check
