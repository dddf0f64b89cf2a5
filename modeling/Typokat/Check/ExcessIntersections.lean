import Typokat.Check.ExcessMembers

/-!
# Excess Properties of Intersections

A literal for an intersection of two object types is checked against the list of both members, one
for the object that merges them by the other walker.

## Main Definitions

- `MergedObject` : the object that stands for an intersection of two objects
- `mergedFits` : the expressions that the two walkers agree on

## Main Results

- `checkMembersObject_merged` : a literal for two members is checked as for the merged object
- `intersection_checked_as_merged` : **an intersection is checked as its merged object**
-/

namespace Typokat.Check.Excess

open Types Interner Option
open Relate (NumberText)

/-! ## §1 The merged object -/

/-- An object with named properties and at most a string index signature. -/
structure PlainObject (object : ObjectType) : Prop where
  named : ∀ property ∈ object.properties, property.key.asString.isSome = true
  numberIndex : object.numberIndex = none
  callSignatures : object.callSignatures = []
  constructSignatures : object.constructSignatures = []

/-- A plain object is open when it has neither properties nor an index signature. -/
theorem PlainObject.isOpenObject_iff {object : ObjectType} (h : PlainObject object) :
    isOpenObject object = true ↔
      (∀ name, object.property name = none) ∧ object.stringIndex = none := by
  have hproperties : object.properties = [] ↔ ∀ name, object.property name = none := by
    constructor
    · intro hnil name
      unfold ObjectType.property
      rw [hnil, List.find?_nil]
    · intro hnone
      rw [List.eq_nil_iff_forall_not_mem]
      intro property hmem
      obtain ⟨name, hname⟩ := isSome_iff_exists.mp (h.named property hmem)
      have hmissing := hnone name
      unfold ObjectType.property at hmissing
      rw [List.find?_eq_none] at hmissing
      exact hmissing property hmem (by simp [hname])
  unfold isOpenObject
  simp [h.numberIndex, h.callSignatures, h.constructSignatures, hproperties]

section Merged

variable (structuralHash : StructuralKey → Nat) (τ : Interner)

/-- The type of a merged object for the types that its two sides give: the one that is given, or the
    intersection of both.  A type is its own intersection with itself. -/
def MergedType : Option TypeId → Option TypeId → Option TypeId → Prop
  | some p, some q, merged => ∃ c, merged = some c ∧
      (if p = q then c = p else τ.intersection structuralHash [p, q] = some (c, τ))
  | some p, none, merged => merged = some p
  | none, side, merged => merged = side

/-- **The object `m` stands for the intersection** of the objects `a` and `b`. -/
structure MergedObject (a b m : ObjectType) : Prop where
  left : PlainObject a
  right : PlainObject b
  merged : PlainObject m
  property : ∀ name, MergedType structuralHash τ ((a.property name).map (fun p => p.ty))
    ((b.property name).map (fun p => p.ty)) ((m.property name).map (fun p => p.ty))
  index : MergedType structuralHash τ a.stringIndex b.stringIndex m.stringIndex

variable {structuralHash τ}

theorem MergedType.eq_none_iff {left right merged : Option TypeId}
    (h : MergedType structuralHash τ left right merged) :
    merged = none ↔ left = none ∧ right = none := by
  cases left with
  | some p =>
    cases right with
    | some q =>
      obtain ⟨c, rfl, -⟩ := h
      simp
    | none =>
      have hmerged : merged = some p := h
      simp [hmerged]
  | none =>
    have hmerged : merged = right := h
    simp [hmerged]

/-- The merged object of two empty ones is empty. -/
theorem MergedObject.isOpenObject {a b m : ObjectType} (h : MergedObject structuralHash τ a b m) :
    isOpenObject m = (isOpenObject a && isOpenObject b) := by
  rw [Bool.eq_iff_iff, Bool.and_eq_true, h.left.isOpenObject_iff, h.right.isOpenObject_iff,
    h.merged.isOpenObject_iff, h.index.eq_none_iff]
  have hproperty : ∀ name,
      m.property name = none ↔ a.property name = none ∧ b.property name = none := by
    intro name
    have hname := (h.property name).eq_none_iff
    rwa [map_eq_none_iff, map_eq_none_iff, map_eq_none_iff] at hname
  simp only [hproperty, forall_and]
  exact and_and_and_comm

end Merged

section Comparison

variable (text : NumberText) (store : Store)

/-- A member of a literal for two different object types. -/
def memberFits (A B M : TypeId) : ObjectMember → Bool
  | .spread => true
  | .property none _ _ => true
  | .property (some name) _ value =>
    match propertyType store A name, propertyType store B name with
    | some p, some q => (propertyType store M name).all (sharedFits text store value p q)
    | some _, none => true
    | none, some _ => true
    | none, none =>
      match indexType text store A name, indexType text store B name with
      | some i, some j => i == j || (silent text store value i && silent text store value j
          && (indexType text store M name).all (silent text store value))
      | _, _ => true

/-- A literal for two object types: these are one type, or not both empty, and every member
    fits. -/
def literalFits (A B M : TypeId) (properties : List ObjectMember) : Bool :=
  A == B || unnamed properties ||
    (!((store.objectType A).any isOpenObject && (store.objectType B).any isOpenObject)
      && properties.all (memberFits text store A B M))

/-- The object literals that an expression hands to its own target fit. -/
def everyLiteral (fits : List ObjectMember → Bool) : Expression → Bool
  | .parenthesized expression => everyLiteral fits expression
  | .object properties => fits properties
  | .array _ => true
  | .conditional consequent alternate =>
    everyLiteral fits consequent && everyLiteral fits alternate
  | .logical operator left right =>
    (operator == .and || everyLiteral fits left) && everyLiteral fits right
  | .other => true

/-- **The expressions that both walkers agree on.** -/
def mergedFits (A B M : TypeId) (expression : Expression) : Bool :=
  everyLiteral (literalFits text store A B M) expression

variable {text store}

/-- Two targets for object literals agree on an expression when they agree on the literals that it
    hands to them. -/
theorem reportedKeys_of_literals {fits : List ObjectMember → Bool} {I M : TypeId}
    (hI : contextualLiteralTarget store I = I) (hM : contextualLiteralTarget store M = M)
    (hItuple : store.tupleType I = none) (hMtuple : store.tupleType M = none)
    (hIarray : store.arrayType I = none) (hMarray : store.arrayType M = none)
    (hliteral : ∀ properties, fits properties = true →
      reportedKeys (collectExcessProperties text store ∅ (.object properties) I) =
        reportedKeys (collectExcessProperties text store ∅ (.object properties) M)) :
    ∀ expression, everyLiteral fits expression = true →
      reportedKeys (collectExcessProperties text store ∅ expression I) =
        reportedKeys (collectExcessProperties text store ∅ expression M)
  | .parenthesized expression, h => by
    rw [everyLiteral] at h
    rw [collectExcessProperties, collectExcessProperties, walkTarget_empty, walkTarget_empty, hI,
      hM]
    exact reportedKeys_of_literals hI hM hItuple hMtuple hIarray hMarray hliteral expression h
  | .object properties, h => hliteral properties h
  | .array elements, h => by
    rw [collectExcessProperties, collectExcessProperties, walkTarget_empty, walkTarget_empty, hI,
      hM, hItuple, hMtuple, hIarray, hMarray]
  | .conditional consequent alternate, h => by
    rw [everyLiteral, Bool.and_eq_true] at h
    rw [collectExcessProperties, collectExcessProperties, walkTarget_empty, walkTarget_empty, hI,
      hM, reportedKeys_append, reportedKeys_append,
      reportedKeys_of_literals hI hM hItuple hMtuple hIarray hMarray hliteral consequent h.1,
      reportedKeys_of_literals hI hM hItuple hMtuple hIarray hMarray hliteral alternate h.2]
  | .logical operator left right, h => by
    rw [everyLiteral, Bool.and_eq_true, Bool.or_eq_true, beq_iff_eq] at h
    rw [collectExcessProperties, collectExcessProperties, walkTarget_empty, walkTarget_empty, hI,
      hM, reportedKeys_append, reportedKeys_append,
      reportedKeys_of_literals hI hM hItuple hMtuple hIarray hMarray hliteral right h.2]
    by_cases hoperator : operator = .and
    · rw [if_neg (by simpa using hoperator), if_neg (by simpa using hoperator)]
    · rw [if_pos hoperator, if_pos hoperator,
        reportedKeys_of_literals hI hM hItuple hMtuple hIarray hMarray hliteral left
          (h.1.resolve_left hoperator)]
  | .other, _ => rfl

variable {structuralHash : StructuralKey → Nat} {τ : Interner}

/-- **A literal for two members**, in either order, is checked as for the merged object. -/
theorem checkMembersObject_merged {A B M : TypeId} {m : ObjectType}
    (hM : store.objectType M = some m)
    (hproperty : ∀ name, MergedType structuralHash τ (propertyType store A name)
      (propertyType store B name) (propertyType store M name))
    (hindex : ∀ name, MergedType structuralHash τ (indexType text store A name)
      (indexType text store B name) (indexType text store M name))
    {properties : List ObjectMember}
    (hfits : properties.all (memberFits text store A B M) = true) (ty : TypeId) :
    reportedKeys (checkMembersObject text store ∅ properties [A, B]) =
        reportedKeys (checkObject text store ∅ properties ty m) ∧
      reportedKeys (checkMembersObject text store ∅ properties [B, A]) =
        reportedKeys (checkObject text store ∅ properties ty m) := by
  induction properties with
  | nil => exact ⟨rfl, rfl⟩
  | cons member rest ih =>
    rw [List.all_cons, Bool.and_eq_true] at hfits
    obtain ⟨hmember, hrest⟩ := hfits
    obtain ⟨hforth, hback⟩ := ih hrest
    cases member with
    | spread =>
      rw [checkMembersObject, checkMembersObject, checkObject]
      exact ⟨hforth, hback⟩
    | property name span value =>
      cases name with
      | none =>
        rw [checkMembersObject, checkMembersObject, checkObject]
        exact ⟨hforth, hback⟩
      | some name =>
        rw [checkMembersObject_pair, checkMembersObject_pair, checkObject_property hM,
          reportedKeys_append, reportedKeys_append, reportedKeys_append, hforth, hback]
        rw [memberFits] at hmember
        have hp := hproperty name
        have hi := hindex name
        cases hpA : propertyType store A name with
        | some p =>
          cases hpB : propertyType store B name with
          | some q =>
            -- both members name the key
            rw [hpA, hpB] at hp hmember
            obtain ⟨c, hc, -⟩ := hp
            rw [hc] at hmember ⊢
            have hshared := checkAgainstMany_shared value p q c hmember
            exact ⟨congrArg (· ++ _) hshared.1, congrArg (· ++ _) hshared.2⟩
          | none =>
            rw [hpA, hpB] at hp
            have hpM : propertyType store M name = some p := hp
            rw [hpM]
            exact ⟨rfl, rfl⟩
        | none =>
          cases hpB : propertyType store B name with
          | some q =>
            rw [hpA, hpB] at hp
            have hpM : propertyType store M name = some q := hp
            rw [hpM]
            exact ⟨rfl, rfl⟩
          | none =>
            rw [hpA, hpB] at hp hmember
            have hpM : propertyType store M name = none := hp
            rw [hpM]
            dsimp only at hmember ⊢
            cases hiA : indexType text store A name with
            | none =>
              rw [hiA] at hi
              have hiM : indexType text store M name = indexType text store B name := hi
              rw [hiM, none_or, or_none]
              cases indexType text store B name <;> exact ⟨rfl, rfl⟩
            | some i =>
              cases hiB : indexType text store B name with
              | none =>
                rw [hiA, hiB] at hi
                have hiM : indexType text store M name = some i := hi
                rw [hiM]
                exact ⟨rfl, rfl⟩
              | some j =>
                -- both index signatures accept the key, and only the first one is followed
                rw [hiA, hiB] at hi hmember
                obtain ⟨c, hc, hsame⟩ := hi
                rw [hc] at hmember ⊢
                rw [Bool.or_eq_true, beq_iff_eq] at hmember
                dsimp only [some_or]
                rcases hmember with rfl | hsilent
                · rw [if_pos rfl] at hsame
                  subst hsame
                  exact ⟨rfl, rfl⟩
                · rw [Bool.and_eq_true, Bool.and_eq_true] at hsilent
                  rw [collectExcessProperties_silent value i hsilent.1.1,
                    collectExcessProperties_silent value j hsilent.1.2,
                    collectExcessProperties_silent value c hsilent.2]
                  exact ⟨rfl, rfl⟩

/-- Objects with the same properties and index signatures are checked alike. -/
theorem checkObject_congr {A M : TypeId} {a m : ObjectType} (hA : store.objectType A = some a)
    (hM : store.objectType M = some m)
    (hproperty : ∀ name, propertyType store M name = propertyType store A name)
    (hindex : ∀ name, indexType text store M name = indexType text store A name)
    (properties : List ObjectMember) :
    reportedKeys (checkObject text store ∅ properties A a) =
      reportedKeys (checkObject text store ∅ properties M m) := by
  induction properties with
  | nil => rfl
  | cons member rest ih =>
    cases member with
    | spread =>
      rw [checkObject, checkObject]
      exact ih
    | property name span value =>
      cases name with
      | none =>
        rw [checkObject, checkObject]
        exact ih
      | some name =>
        rw [checkObject_property hA, checkObject_property hM, reportedKeys_append,
          reportedKeys_append, hproperty, hindex, ih]
        congr 1
        cases propertyType store A name with
        | some p => rfl
        | none => cases indexType text store A name <;> rfl

end Comparison

section Intersections

variable {text : NumberText} {structuralHash : StructuralKey → Nat} {τ : Interner}
  {A B I M : TypeId} {a b m : ObjectType}

theorem propertyType_of_object {store : Store} (hA : store.objectType A = some a) (name : String) :
    propertyType store A name = (a.property name).map (fun p => p.ty) := by
  unfold propertyType
  rw [hA, bind_some]

/-- A plain object has one index signature for all keys. -/
theorem indexType_of_plain {store : Store} (hA : store.objectType A = some a)
    (hplain : PlainObject a) (name : String) : indexType text store A name = a.stringIndex := by
  unfold indexType indexValue
  rw [hA, bind_some, hplain.numberIndex, none_or, ite_self]

/-- **A literal for an intersection of two objects** is checked as for the merged object. -/
theorem collectExcessProperties_literal (hτ : τ.Reachable structuralHash)
    (hA : τ.store.objectType A = some a) (hB : τ.store.objectType B = some b)
    (hM : τ.store.objectType M = some m) (hne : A ≠ B)
    (hI : τ.intersection structuralHash [A, B] = some (I, τ))
    (hmerged : MergedObject structuralHash τ a b m) {properties : List ObjectMember}
    (hfits : literalFits text τ.store A B M properties = true) :
    reportedKeys (collectExcessProperties text τ.store ∅ (.object properties) I) =
      reportedKeys (collectExcessProperties text τ.store ∅ (.object properties) M) := by
  have hmembers :=
    (intersection_of_objects_iff hτ.consed hτ.knowsIntrinsics hne hA hB).mp hI
  unfold literalFits at hfits
  rw [Bool.or_eq_true, Bool.or_eq_true, beq_iff_eq] at hfits
  rw [collectExcessProperties_members hmembers, collectExcessProperties_objectType hM]
  rcases hfits with (heq | hunnamed) | hfits
  · exact absurd heq hne
  · rw [checkMembersObject_unnamed hunnamed, checkObject_unnamed hunnamed, ite_self]
  · rw [Bool.and_eq_true, Bool.not_eq_true', hA, hB, any_some, any_some,
      ← hmerged.isOpenObject] at hfits
    have hproperty : ∀ name, MergedType structuralHash τ (propertyType τ.store A name)
        (propertyType τ.store B name) (propertyType τ.store M name) := by
      intro name
      rw [propertyType_of_object hA, propertyType_of_object hB, propertyType_of_object hM]
      exact hmerged.property name
    have hindex : ∀ name, MergedType structuralHash τ (indexType text τ.store A name)
        (indexType text τ.store B name) (indexType text τ.store M name) := by
      intro name
      rw [indexType_of_plain hA hmerged.left, indexType_of_plain hB hmerged.right,
        indexType_of_plain hM hmerged.merged]
      exact hmerged.index
    obtain ⟨hforth, hback⟩ := checkMembersObject_merged hM hproperty hindex hfits.2 M
    rw [hfits.1, if_neg Bool.false_ne_true]
    rcases sortDedup_pair hne with hsorted | hsorted
    · rw [hsorted]
      exact hforth
    · rw [hsorted]
      exact hback

/-- A literal for one object type twice is checked as for the merged object, whatever it holds. -/
theorem collectExcessProperties_same (hA : τ.store.objectType A = some a)
    (hM : τ.store.objectType M = some m) (hmerged : MergedObject structuralHash τ a a m)
    (properties : List ObjectMember) :
    reportedKeys (collectExcessProperties text τ.store ∅ (.object properties) A) =
      reportedKeys (collectExcessProperties text τ.store ∅ (.object properties) M) := by
  have hsame : ∀ {side merged : Option TypeId}, MergedType structuralHash τ side side merged →
      merged = side := by
    intro side merged h
    cases side with
    | none => exact h
    | some p =>
      obtain ⟨c, rfl, hc⟩ := h
      rw [if_pos rfl] at hc
      rw [hc]
  have hproperty : ∀ name, propertyType τ.store M name = propertyType τ.store A name := by
    intro name
    rw [propertyType_of_object hM, propertyType_of_object hA]
    exact hsame (hmerged.property name)
  have hindex : ∀ name, indexType text τ.store M name = indexType text τ.store A name := by
    intro name
    rw [indexType_of_plain hM hmerged.merged, indexType_of_plain hA hmerged.left]
    exact hsame hmerged.index
  rw [collectExcessProperties_objectType hA, collectExcessProperties_objectType hM,
    hmerged.isOpenObject, Bool.and_self]
  cases isOpenObject a with
  | true => rfl
  | false => exact checkObject_congr hA hM hproperty hindex properties

/-- **An intersection is checked as its merged object.**  The keys that are reported for the
    intersection of two objects are those reported for the object that merges them, if the object
    literals that the expression hands to its target fit. -/
theorem intersection_checked_as_merged (hτ : τ.Reachable structuralHash)
    (hA : τ.store.objectType A = some a) (hB : τ.store.objectType B = some b)
    (hM : τ.store.objectType M = some m)
    (hI : τ.intersection structuralHash [A, B] = some (I, τ))
    (hmerged : MergedObject structuralHash τ a b m) (expression : Expression)
    (hfits : mergedFits text τ.store A B M expression = true) :
    reportedKeys (collectExcessProperties text τ.store ∅ expression I) =
      reportedKeys (collectExcessProperties text τ.store ∅ expression M) := by
  have hplain : ∀ {ty : TypeId} {tag : TypeTag}, τ.store.tag ty = some tag →
      tag = .object ∨ tag = .intersection → contextualLiteralTarget τ.store ty = ty ∧
        τ.store.tupleType ty = none ∧ τ.store.arrayType ty = none := by
    intro ty tag htag hcases
    refine ⟨?_, ?_, ?_⟩
    · apply contextualLiteralTarget_of_tag htag
      · rcases hcases with rfl | rfl <;> simp
      · rcases hcases with rfl | rfl <;> simp
    · apply if_neg
      rw [htag]
      rcases hcases with rfl | rfl <;> simp [SideTable.tag]
    · apply if_neg
      rw [htag]
      rcases hcases with rfl | rfl <;> simp [SideTable.tag]
  obtain ⟨hMtarget, hMtuple, hMarray⟩ := hplain (tag_of_objectType hM) (.inl rfl)
  by_cases hne : A = B
  · subst hne
    obtain rfl : a = b := some.inj (hA.symm.trans hB)
    -- the intersection is the one type
    have hrow := (τ.store.entry_eq_some_iff .objects A a).mp hA
    have hmembers : τ.store.intersectionMembers A = none := by
      apply intersectionMembers_of_tag_ne
      simp [tag_of_objectType hA]
    rw [intersection_self hτ.consed hτ.knowsIntrinsics hrow hmembers
      (objectType_ne_wellKnown hτ.knowsIntrinsics hA .error), some.injEq,
      Prod.mk.injEq] at hI
    obtain ⟨rfl, -⟩ := hI
    obtain ⟨hAtarget, hAtuple, hAarray⟩ := hplain (tag_of_objectType hA) (.inl rfl)
    apply reportedKeys_of_literals hAtarget hMtarget hAtuple hMtuple hAarray hMarray ?_ _ hfits
    intro properties _
    exact collectExcessProperties_same hA hM hmerged properties
  · have hmembers :=
      (intersection_of_objects_iff hτ.consed hτ.knowsIntrinsics hne hA hB).mp hI
    have htag : τ.store.tag I = some .intersection :=
      Store.tag_of_row ((τ.store.entry_eq_some_iff .intersections I _).mp hmembers)
    obtain ⟨hItarget, hItuple, hIarray⟩ := hplain htag (.inr rfl)
    apply reportedKeys_of_literals hItarget hMtarget hItuple hMtuple hIarray hMarray ?_ _ hfits
    intro properties hliteral
    exact collectExcessProperties_literal hτ hA hB hM hne hI hmerged hliteral

end Intersections

/-! ## §3 Two objects that share keys -/

variable (properties : List (String × TypeId))

/-- An object with the given properties and string index signature. -/
def namedObject (stringIndex : Option TypeId) :
    ObjectType where
  properties := properties.map (fun entry => { key := .string entry.1, ty := entry.2 })
  stringIndex := stringIndex

theorem plainObject_namedObject (stringIndex : Option TypeId) :
    PlainObject (namedObject properties stringIndex) where
  named := by
    intro property hproperty
    obtain ⟨entry, -, rfl⟩ := List.mem_map.mp hproperty
    rfl
  numberIndex := rfl
  callSignatures := rfl
  constructSignatures := rfl

theorem property_namedObject (stringIndex : Option TypeId) (name : String) :
    ((namedObject properties stringIndex).property name).map (fun p => p.ty) =
      (properties.find? (fun entry => entry.1 == name)).map (fun entry => entry.2) := by
  unfold ObjectType.property namedObject
  rw [List.find?_map, map_map]
  rfl

/-- A key with the types that the two sides and the merged object give to it. -/
structure SharedKey where
  name : String
  left : TypeId
  right : TypeId
  merged : TypeId

/-- Two objects with the same keys are merged key by key. -/
theorem mergedObject_of_keys {structuralHash : StructuralKey → Nat} {τ : Interner}
    {keys : List SharedKey} {i j c : Option TypeId} (hindex : MergedType structuralHash τ i j c)
    (hkeys : ∀ key ∈ keys, MergedType structuralHash τ (some key.left) (some key.right)
      (some key.merged)) :
    MergedObject structuralHash τ (namedObject (keys.map (fun key => (key.name, key.left))) i)
      (namedObject (keys.map (fun key => (key.name, key.right))) j)
      (namedObject (keys.map (fun key => (key.name, key.merged))) c) where
  left := plainObject_namedObject _ _
  right := plainObject_namedObject _ _
  merged := plainObject_namedObject _ _
  property := by
    intro name
    rw [property_namedObject, property_namedObject, property_namedObject]
    simp only [List.find?_map, map_map]
    show MergedType structuralHash τ
      ((keys.find? (fun key => key.name == name)).map (fun key => key.left))
      ((keys.find? (fun key => key.name == name)).map (fun key => key.right))
      ((keys.find? (fun key => key.name == name)).map (fun key => key.merged))
    cases hfound : keys.find? (fun key => key.name == name) with
    | none => exact rfl
    | some key => exact hkeys key (List.mem_of_find?_eq_some hfound)
  index := hindex

/-- The keys of two objects: disjoint primitives, an empty object, two object types, an array, a
    primitive, and two objects with index signatures. -/
def sharedKeys : List SharedKey :=
  [⟨"d", 8, 9, 3⟩, ⟨"e", 21, 21, 21⟩, ⟨"k", 19, 20, 23⟩, ⟨"l", 22, 22, 22⟩, ⟨"n", 8, 8, 8⟩,
    ⟨"o", 25, 24, 26⟩]

/-- The two objects (27 and 28), the object that merges them (29) and their intersection (30); at
    last two empty interfaces (31 and 32) and their intersection (33). -/
def sharedHistory : List InternerOp :=
  [.internObject (namedObject [("a", 8)] none), .internObject (namedObject [("b", 8)] none),
    .internObject (namedObject [] none), .internArray 19, .intersection [19, 20],
    .internObject (namedObject [] (some 19)), .internObject (namedObject [] (some 20)),
    .intersection [25, 24],
    .internObject (namedObject (sharedKeys.map (fun key => (key.name, key.left))) (some 19)),
    .internObject (namedObject (sharedKeys.map (fun key => (key.name, key.right))) (some 20)),
    .internObject (namedObject (sharedKeys.map (fun key => (key.name, key.merged))) (some 23)),
    .intersection [27, 28],
    .reserveObject, .reserveObject, .fillObject 31 {}, .fillObject 32 {}, .intersection [31, 32]]

def sharedInterner : Interner :=
  ((runHistory (fun _ => 0) 0 sharedHistory (Interner.withIntrinsics (fun _ => 0))).map
    (fun reached => reached.2)).getD (Interner.withIntrinsics (fun _ => 0))

theorem reachable_sharedInterner : sharedInterner.Reachable (fun _ => 0) := by
  obtain ⟨reached, hrun, -⟩ := exists_of_run
    (r := runHistory (fun _ => 0) 0 sharedHistory (withIntrinsics (fun _ => 0)))
    (P := fun _ => True) (by decide +kernel)
  refine ⟨0, sharedHistory, reached.1, ?_⟩
  unfold sharedInterner
  rw [hrun]
  rfl

/-- The two objects and the object that merges them. -/
def leftObject : ObjectType :=
  namedObject (sharedKeys.map (fun key => (key.name, key.left))) (some 19)

def rightObject : ObjectType :=
  namedObject (sharedKeys.map (fun key => (key.name, key.right))) (some 20)

def bothObject : ObjectType :=
  namedObject (sharedKeys.map (fun key => (key.name, key.merged))) (some 23)

theorem rows_sharedInterner :
    sharedInterner.store.objectType 27 = some leftObject ∧
    sharedInterner.store.objectType 28 = some rightObject ∧
    sharedInterner.store.objectType 29 = some bothObject ∧
    (∀ id ∈ [21, 31, 32], sharedInterner.store.objectType id = some (namedObject [] none)) ∧
    (∀ id ∈ [19, 20, 24, 25], (sharedInterner.store.objectType id).isSome = true) ∧
    sharedInterner.store.intersectionMembers 23 = some (sortDedup [19, 20]) ∧
    sharedInterner.store.intersectionMembers 26 = some (sortDedup [25, 24]) ∧
    sharedInterner.store.intersectionMembers 30 = some (sortDedup [27, 28]) ∧
    sharedInterner.store.intersectionMembers 33 = some (sortDedup [31, 32]) := by
  decide +kernel

/-- Two different object types of the interner intersect to the row over both. -/
theorem intersection_sharedInterner {p q c : TypeId} (hne : p ≠ q)
    (hp : (sharedInterner.store.objectType p).isSome = true)
    (hq : (sharedInterner.store.objectType q).isSome = true)
    (hc : sharedInterner.store.intersectionMembers c = some (sortDedup [p, q])) :
    sharedInterner.intersection (fun _ => 0) [p, q] = some (c, sharedInterner) := by
  obtain ⟨a, ha⟩ := isSome_iff_exists.mp hp
  obtain ⟨b, hb⟩ := isSome_iff_exists.mp hq
  exact (intersection_of_objects_iff reachable_sharedInterner.consed
    reachable_sharedInterner.knowsIntrinsics hne ha hb).mpr hc

theorem intersection_leftObject_rightObject :
    sharedInterner.intersection (fun _ => 0) [27, 28] = some (30, sharedInterner) := by
  obtain ⟨hleft, hright, -, -, -, -, -, hrow, -⟩ := rows_sharedInterner
  exact intersection_sharedInterner (by decide) (by rw [hleft]; rfl) (by rw [hright]; rfl) hrow

theorem mergedObject_sharedInterner :
    MergedObject (fun _ => 0) sharedInterner leftObject rightObject bothObject := by
  obtain ⟨-, -, -, -, hobjects, hplain, hindexed, -, -⟩ := rows_sharedInterner
  have hk := intersection_sharedInterner (by decide) (hobjects 19 (by decide))
    (hobjects 20 (by decide)) hplain
  have ho := intersection_sharedInterner (by decide) (hobjects 25 (by decide))
    (hobjects 24 (by decide)) hindexed
  have hd : sharedInterner.intersection (fun _ => 0) [8, 9] = some (3, sharedInterner) := rfl
  apply mergedObject_of_keys
  · exact ⟨23, rfl, hk⟩
  · intro key hkey
    simp only [sharedKeys, List.mem_cons, List.not_mem_nil, or_false] at hkey
    rcases hkey with rfl | rfl | rfl | rfl | rfl | rfl
    · exact ⟨3, rfl, hd⟩
    · exact ⟨21, rfl, rfl⟩
    · exact ⟨23, rfl, hk⟩
    · exact ⟨22, rfl, rfl⟩
    · exact ⟨8, rfl, rfl⟩
    · exact ⟨26, rfl, ho⟩

/-- An object literal with one key. -/
def oneKey (name : String) (start : Nat) (value : Expression) : Expression :=
  .object [.property (some name) ⟨start, start + 1⟩ value]

/-- No key is parsed as a number. -/
def noNumbers : NumberText := ⟨fun _ => "", fun _ => "", fun _ => none⟩

/-- The keys that the intersection and the merged object report. -/
def bothReport (expression : Expression) : List (Span × String) × List (Span × String) :=
  (reportedKeys (collectExcessProperties noNumbers sharedInterner.store ∅ expression 30),
    reportedKeys (collectExcessProperties noNumbers sharedInterner.store ∅ expression 29))

/-- **Where the two differ.**  Under a shared key: a ternary and an array literal are only looked
    into for the merged object, the keys for a primitive, for disjoint primitives and for the empty
    object only reported for the intersection, and the members stand in another order than in the
    merged row.  Of two index signatures only the first one is followed.  Two different empty
    objects are not open together. -/
theorem intersection_checked_otherwise :
    sharedInterner.Reachable (fun _ => 0) ∧
    sharedInterner.store.objectType 27 = some leftObject ∧
    sharedInterner.store.objectType 28 = some rightObject ∧
    sharedInterner.store.objectType 29 = some bothObject ∧
    sharedInterner.intersection (fun _ => 0) [27, 28] = some (30, sharedInterner) ∧
    MergedObject (fun _ => 0) sharedInterner leftObject rightObject bothObject ∧
    (∀ id ∈ [21, 31, 32], sharedInterner.store.objectType id = some (namedObject [] none)) ∧
    sharedInterner.intersection (fun _ => 0) [31, 32] = some (33, sharedInterner) ∧
    MergedObject (fun _ => 0) sharedInterner (namedObject [] none) (namedObject [] none)
      (namedObject [] none) ∧
    [oneKey "k" 0 (.conditional (oneKey "x" 1 .other) (oneKey "y" 2 .other)),
      oneKey "l" 0 (.array [.expression (oneKey "x" 1 .other)]),
      oneKey "n" 0 (oneKey "x" 1 .other), oneKey "d" 0 (oneKey "x" 1 .other),
      oneKey "e" 0 (oneKey "x" 1 .other), oneKey "o" 0 (oneKey "z" 1 (oneKey "b" 2 .other)),
      oneKey "z" 0 (oneKey "b" 1 .other)].map bothReport =
      [([], [(⟨1, 2⟩, "x"), (⟨2, 3⟩, "y")]), ([], [(⟨1, 2⟩, "x")]), ([(⟨1, 2⟩, "x")], []),
        ([(⟨1, 2⟩, "x")], []), ([(⟨1, 2⟩, "x")], []), ([], [(⟨2, 3⟩, "b")]),
        ([(⟨1, 2⟩, "b")], [])] ∧
    [33, 21].map (fun ty => reportedKeys (collectExcessProperties noNumbers sharedInterner.store ∅
      (oneKey "x" 1 .other) ty)) = [[(⟨1, 2⟩, "x")], []] := by
  obtain ⟨hleft, hright, hboth, hempty, -, -, -, -, hrow⟩ := rows_sharedInterner
  have hintersection : sharedInterner.intersection (fun _ => 0) [31, 32] =
      some (33, sharedInterner) :=
    intersection_sharedInterner (by decide) (by rw [hempty 31 (by decide)]; rfl)
      (by rw [hempty 32 (by decide)]; rfl) hrow
  have hmerged : MergedObject (fun _ => 0) sharedInterner (namedObject [] none)
      (namedObject [] none) (namedObject [] none) :=
    @mergedObject_of_keys _ _ [] _ _ _ rfl (by simp)
  refine ⟨reachable_sharedInterner, hleft, hright, hboth, intersection_leftObject_rightObject,
    mergedObject_sharedInterner, hempty, hintersection, hmerged, ?_⟩
  decide +kernel

/-- `c ? {k: ({a, x}), l: [{a}], n: 1, z: 2} : y ?? {k: {b, y}}` reports `x` and `y` either
    way. -/
def fittingExpression : Expression :=
  .conditional
    (.object [.property (some "k") ⟨0, 1⟩ (.parenthesized (.object
        [.property (some "a") ⟨1, 2⟩ .other, .property (some "x") ⟨2, 3⟩ .other])),
      .property (some "l") ⟨8, 9⟩ (.array [.expression (oneKey "a" 9 .other)]),
      .property (some "n") ⟨3, 4⟩ .other, .property (some "z") ⟨4, 5⟩ .other])
    (.logical .coalesce .other (oneKey "k" 5 (.object
      [.property (some "b") ⟨6, 7⟩ .other, .property (some "y") ⟨7, 8⟩ .other])))

theorem intersection_checked_as_merged_fitting :
    reportedKeys (collectExcessProperties noNumbers sharedInterner.store ∅ fittingExpression 30) =
        [(⟨2, 3⟩, "x"), (⟨7, 8⟩, "y")] ∧
      reportedKeys (collectExcessProperties noNumbers sharedInterner.store ∅ fittingExpression 30) =
        reportedKeys (collectExcessProperties noNumbers sharedInterner.store ∅ fittingExpression
          29) := by
  obtain ⟨hleft, hright, hboth, -⟩ := rows_sharedInterner
  have hfits : reportedKeys (collectExcessProperties noNumbers sharedInterner.store ∅
        fittingExpression 30) = [(⟨2, 3⟩, "x"), (⟨7, 8⟩, "y")] ∧
      mergedFits noNumbers sharedInterner.store 27 28 29 fittingExpression = true := by
    decide +kernel
  exact ⟨hfits.1, intersection_checked_as_merged reachable_sharedInterner hleft hright hboth
    intersection_leftObject_rightObject mergedObject_sharedInterner fittingExpression hfits.2⟩

end Typokat.Check.Excess
