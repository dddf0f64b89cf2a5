import Typokat.Check.ExcessProperties
import Typokat.Types.ObjectIntersections

/-!
# The Two Walkers of the Excess Check

One walker follows a literal along an object type, the other one along a list of members.  Under a
key that several members name, the second one only goes into object literals, and of the members
only object types count; of several index signatures it takes the first.  What the two report for
one object type, for it twice, and for two members in either order is compared here.

## Main Definitions

- `silent` : the targets of an expression know all keys of its literals
- `orderFree` : no two index signatures of two members compete for a key
- `sharedFits` : the values that two members and their merged type treat alike

## Main Results

- `collectExcessProperties_silent` : a silent expression reports nothing
- `checkMembersObject_swap` : the order of two members does not matter
- `checkAgainstMany_shared` : a shared value is checked as against the merged type
-/

namespace Typokat.Check.Excess

open Types Option Bool
open Relate (NumberText)

/-! ## §1 Reports and targets -/

/-- The keys that are reported, with their positions. -/
def reportedKeys (diagnostics : List ExcessProperty) : List (Span × String) :=
  diagnostics.map (fun diagnostic => (diagnostic.span, diagnostic.name))

@[simp] theorem reportedKeys_nil : reportedKeys [] = [] := rfl

@[simp] theorem reportedKeys_append (xs ys : List ExcessProperty) :
    reportedKeys (xs ++ ys) = reportedKeys xs ++ reportedKeys ys :=
  List.map_append

@[simp] theorem reportedKeys_singleton (diagnostic : ExcessProperty) :
    reportedKeys [diagnostic] = [(diagnostic.span, diagnostic.name)] := rfl

section Targets

variable {text : NumberText} {store : Store}

@[simp] theorem walkTarget_empty (ty : TypeId) :
    walkTarget store ∅ ty = contextualLiteralTarget store ty := by
  unfold walkTarget
  rw [Finmap.lookup_empty, getD_none]

/-- Only readonly types and unions are looked through. -/
theorem contextualLiteralTarget_of_tag {ty : TypeId} {tag : TypeTag}
    (htag : store.tag ty = some tag) (hreadonly : tag ≠ .readonly) (hunion : tag ≠ .union) :
    contextualLiteralTarget store ty = ty := by
  have hoperand : store.readonlyOperand ty = none := by
    apply if_neg
    simpa [htag] using hreadonly
  have hmembers : store.unionMembers ty = none := by
    apply Interner.unionMembers_of_tag_ne
    simpa [htag] using hunion
  unfold contextualLiteralTarget
  rw [hoperand, hmembers]

theorem contextualLiteralTarget_of_shape {ty : TypeId}
    (h : isContextualLiteralShape store ty = true) : contextualLiteralTarget store ty = ty := by
  unfold isContextualLiteralShape at h
  split at h
  · rename_i htag
    exact contextualLiteralTarget_of_tag htag (by simp) (by simp)
  · rename_i htag
    exact contextualLiteralTarget_of_tag htag (by simp) (by simp)
  · rename_i htag
    exact contextualLiteralTarget_of_tag htag (by simp) (by simp)
  · cases h

theorem onlyShape_cases {ty : TypeId} (members : List TypeId) {shape : Option TypeId}
    (hshape : ∀ found ∈ shape, isContextualLiteralShape store found = true) :
    onlyShape store ty members shape = ty ∨
      isContextualLiteralShape store (onlyShape store ty members shape) = true := by
  induction members generalizing shape with
  | nil =>
    cases shape with
    | none => exact .inl rfl
    | some found => exact .inr (hshape found rfl)
  | cons member rest ih =>
    rw [onlyShape]
    split
    · rename_i hmember
      split
      · exact .inl rfl
      · apply ih
        intro found hfound
        rw [mem_some_iff] at hfound
        exact hfound ▸ hmember
    · split
      · exact ih hshape
      · exact ih hshape
      · exact .inl rfl

theorem contextualLiteralTarget_cases (ty : TypeId) :
    contextualLiteralTarget store ty = ty ∨
      isContextualLiteralShape store (contextualLiteralTarget store ty) = true := by
  unfold contextualLiteralTarget
  cases store.unionMembers ty with
  | none =>
    cases store.readonlyOperand ty with
    | none => exact .inl rfl
    | some operand =>
      dsimp only
      split_ifs with hoperand
      · exact .inr hoperand
      · exact .inl rfl
  | some members =>
    have hunion := @onlyShape_cases store ty members none (by simp)
    cases store.readonlyOperand ty with
    | none => exact hunion
    | some operand =>
      dsimp only
      split_ifs with hoperand
      · exact .inr hoperand
      · exact hunion

/-- A target is resolved once. -/
@[simp] theorem contextualLiteralTarget_idem (ty : TypeId) :
    contextualLiteralTarget store (contextualLiteralTarget store ty) =
      contextualLiteralTarget store ty := by
  rcases @contextualLiteralTarget_cases store ty with h | h
  · rw [h, h]
  · exact contextualLiteralTarget_of_shape h

@[simp] theorem collectExcessProperties_target (expression : Expression) (ty : TypeId) :
    collectExcessProperties text store ∅ expression (contextualLiteralTarget store ty) =
      collectExcessProperties text store ∅ expression ty := by
  cases expression <;> simp [collectExcessProperties]

end Targets

/-! ## §2 Silent expressions -/

/-- No member of the literal has a static name. -/
def unnamed (properties : List ObjectMember) : Bool :=
  properties.all (fun member =>
    match member with
    | .property (some _) _ _ => false
    | _ => true)

section Silent

variable (text : NumberText) (store : Store)

mutual

/-- No literal of the expression names a key that its target does not know. -/
def silent : Expression → TypeId → Bool
  | .parenthesized expression, ty => silent expression (contextualLiteralTarget store ty)
  | .object properties, ty =>
    match store.intersectionMembers (contextualLiteralTarget store ty) with
    | some members => silentMembers properties members
    | none =>
      match store.objectType (contextualLiteralTarget store ty) with
      | some object => isOpenObject object || silentObject properties object
      | none => true
  | .array elements, ty =>
    match store.tupleType (contextualLiteralTarget store ty) with
    | some tuple => silentTupleElements elements 0 tuple
    | none =>
      match store.arrayType (contextualLiteralTarget store ty) with
      | some element => silentArrayElements elements (excessRecursionTarget store element)
      | none => true
  | .conditional consequent alternate, ty =>
    silent consequent (contextualLiteralTarget store ty)
      && silent alternate (contextualLiteralTarget store ty)
  | .logical operator left right, ty =>
    (operator == .and || silent left (contextualLiteralTarget store ty))
      && silent right (contextualLiteralTarget store ty)
  | .other, _ => true

/-- The object type names or accepts every key. -/
def silentObject : List ObjectMember → ObjectType → Bool
  | [], _ => true
  | .spread :: rest, object => silentObject rest object
  | .property none _ _ :: rest, object => silentObject rest object
  | .property (some name) _ value :: rest, object =>
    (match objectTarget text store object name with
    | some target => silent value target
    | none => false) && silentObject rest object

/-- Some member names or accepts each key.  Of a value that several members name, only object
    literals are looked into. -/
def silentMembers : List ObjectMember → List TypeId → Bool
  | [], _ => true
  | .spread :: rest, members => silentMembers rest members
  | .property none _ _ :: rest, members => silentMembers rest members
  | .property (some name) _ value :: rest, members =>
    (match contributors store members name with
    | [] =>
      match memberIndexValue text store members name with
      | some target => silent value target
      | none => false
    | [single] => silent value single
    | first :: second :: others => silentMany value (first :: second :: others))
      && silentMembers rest members

def silentMany : Expression → List TypeId → Bool
  | .parenthesized expression, members => silentMany expression members
  | .object properties, members => silentMembers properties members
  | .array _, _ | .conditional _ _, _ | .logical _ _ _, _ | .other, _ => true

def silentTupleElements : List ArrayElement → Nat → TupleType → Bool
  | [], _, _ => true
  | .spread :: rest, index, tuple => silentTupleElements rest (index + 1) tuple
  | .elision :: rest, index, tuple => silentTupleElements rest (index + 1) tuple
  | .expression expression :: rest, index, tuple =>
    (match tuple.elements[index]? with
    | some target => silent expression (excessRecursionTarget store target)
    | none => true) && silentTupleElements rest (index + 1) tuple

def silentArrayElements : List ArrayElement → TypeId → Bool
  | [], _ => true
  | .spread :: rest, target => silentArrayElements rest target
  | .elision :: rest, target => silentArrayElements rest target
  | .expression expression :: rest, target =>
    silent expression target && silentArrayElements rest target

end

variable {text store} {normalized : FxHashMap TypeId TypeId}

theorem unnamed_cons {member : ObjectMember} {rest : List ObjectMember}
    (h : unnamed (member :: rest) = true) :
    (member = .spread ∨ ∃ span value, member = .property none span value) ∧
      unnamed rest = true := by
  unfold unnamed at h
  rw [List.all_cons, and_eq_true] at h
  refine ⟨?_, h.2⟩
  cases member with
  | spread => exact .inl rfl
  | property name span value =>
    cases name with
    | none => exact .inr ⟨span, value, rfl⟩
    | some name => cases h.1

variable {properties : List ObjectMember}

theorem checkObject_unnamed (h : unnamed properties = true) (ty : TypeId) (object : ObjectType) :
    checkObject text store normalized properties ty object = [] := by
  induction properties with
  | nil => rfl
  | cons member rest ih =>
    obtain ⟨rfl | ⟨span, value, rfl⟩, hrest⟩ := unnamed_cons h
    · rw [checkObject, ih hrest]
    · rw [checkObject, ih hrest]

theorem checkMembersObject_unnamed (h : unnamed properties = true) (members : List TypeId) :
    checkMembersObject text store normalized properties members = [] := by
  induction properties with
  | nil => rfl
  | cons member rest ih =>
    obtain ⟨rfl | ⟨span, value, rfl⟩, hrest⟩ := unnamed_cons h
    · rw [checkMembersObject, ih hrest]
    · rw [checkMembersObject, ih hrest]

/-- An object literal is checked against members, against an object type or not at all. -/
theorem collectExcessProperties_object (properties : List ObjectMember) (ty : TypeId) :
    collectExcessProperties text store ∅ (.object properties) ty =
      match store.intersectionMembers (contextualLiteralTarget store ty) with
      | some members => checkMembersObject text store ∅ properties members
      | none =>
        match store.objectType (contextualLiteralTarget store ty) with
        | some object =>
          if isOpenObject object then []
          else checkObject text store ∅ properties (contextualLiteralTarget store ty) object
        | none => [] := by
  rw [collectExcessProperties, walkTarget_empty]
  generalize contextualLiteralTarget store ty = target
  cases hmembers : store.intersectionMembers target with
  | some members =>
    have htag : store.tag target = some .intersection :=
      Store.tag_of_row ((store.entry_eq_some_iff .intersections target members).mp hmembers)
    rw [if_pos htag]
  | none =>
    by_cases htag : store.tag target = some .intersection
    · have hobject : store.objectType target = none := by
        apply if_neg
        simp [htag, SideTable.tag]
      rw [if_pos htag, hobject]
    · rw [if_neg htag]
      cases store.objectType target <;> rfl

theorem collectExcessProperties_unnamed (h : unnamed properties = true) (ty : TypeId) :
    collectExcessProperties text store ∅ (.object properties) ty = [] := by
  rw [collectExcessProperties_object]
  cases store.intersectionMembers (contextualLiteralTarget store ty) with
  | some members => exact checkMembersObject_unnamed h members
  | none =>
    cases store.objectType (contextualLiteralTarget store ty) with
    | none => rfl
    | some object => simp [checkObject_unnamed h]

mutual

/-- **A silent expression reports nothing.** -/
theorem collectExcessProperties_silent : ∀ (expression : Expression) (ty : TypeId),
    silent text store expression ty = true →
      collectExcessProperties text store ∅ expression ty = []
  | .parenthesized expression, ty, h => by
    rw [silent] at h
    rw [collectExcessProperties, walkTarget_empty]
    exact collectExcessProperties_silent expression _ h
  | .object properties, ty, h => by
    rw [silent] at h
    rw [collectExcessProperties_object]
    cases hmembers : store.intersectionMembers (contextualLiteralTarget store ty) with
    | some members =>
      rw [hmembers] at h
      exact checkMembersObject_silent properties members h
    | none =>
      rw [hmembers] at h
      cases hobject : store.objectType (contextualLiteralTarget store ty) with
      | none => rfl
      | some object =>
        rw [hobject, or_eq_true] at h
        dsimp only
        rcases h with hopen | h
        · exact if_pos hopen
        · rw [checkObject_silent properties _ object h, ite_self]
  | .array elements, ty, h => by
    rw [silent] at h
    rw [collectExcessProperties, walkTarget_empty]
    cases htuple : store.tupleType (contextualLiteralTarget store ty) with
    | some tuple =>
      rw [htuple] at h
      exact checkTupleElements_silent elements 0 tuple h
    | none =>
      rw [htuple] at h
      cases harray : store.arrayType (contextualLiteralTarget store ty) with
      | some element =>
        rw [harray] at h
        exact checkArrayElements_silent elements _ h
      | none => rfl
  | .conditional consequent alternate, ty, h => by
    rw [silent, and_eq_true] at h
    rw [collectExcessProperties, walkTarget_empty]
    rw [collectExcessProperties_silent consequent _ h.1,
      collectExcessProperties_silent alternate _ h.2, List.append_nil]
  | .logical operator left right, ty, h => by
    rw [silent, and_eq_true, or_eq_true, beq_iff_eq] at h
    rw [collectExcessProperties, walkTarget_empty]
    rw [collectExcessProperties_silent right _ h.2, List.append_nil]
    by_cases hoperator : operator = .and
    · rw [if_neg (by simpa using hoperator)]
    · rw [if_pos hoperator, collectExcessProperties_silent left _ (h.1.resolve_left hoperator)]
  | .other, ty, h => rfl

theorem checkObject_silent : ∀ (properties : List ObjectMember) (ty : TypeId)
    (object : ObjectType), silentObject text store properties object = true →
      checkObject text store ∅ properties ty object = []
  | [], _, _, _ => rfl
  | .spread :: rest, ty, object, h => by
    rw [checkObject]
    exact checkObject_silent rest ty object h
  | .property none _ _ :: rest, ty, object, h => by
    rw [checkObject]
    exact checkObject_silent rest ty object h
  | .property (some name) _ value :: rest, ty, object, h => by
    rw [silentObject, and_eq_true] at h
    rw [checkObject, checkObject_silent rest ty object h.2, List.append_nil]
    cases htarget : objectTarget text store object name with
    | none =>
      rw [htarget] at h
      cases h.1
    | some target =>
      rw [htarget] at h
      exact collectExcessProperties_silent value target h.1

theorem checkMembersObject_silent : ∀ (properties : List ObjectMember) (members : List TypeId),
    silentMembers text store properties members = true →
      checkMembersObject text store ∅ properties members = []
  | [], _, _ => rfl
  | .spread :: rest, members, h => by
    rw [checkMembersObject]
    exact checkMembersObject_silent rest members h
  | .property none _ _ :: rest, members, h => by
    rw [checkMembersObject]
    exact checkMembersObject_silent rest members h
  | .property (some name) _ value :: rest, members, h => by
    rw [silentMembers, and_eq_true] at h
    rw [checkMembersObject, checkMembersObject_silent rest members h.2, List.append_nil]
    obtain ⟨hvalue, -⟩ := h
    revert hvalue
    cases contributors store members name with
    | nil =>
      cases memberIndexValue text store members name with
      | none => exact nofun
      | some target => exact collectExcessProperties_silent value target
    | cons first others =>
      cases others with
      | nil => exact collectExcessProperties_silent value first
      | cons second others => exact checkAgainstMany_silent value (first :: second :: others)

theorem checkAgainstMany_silent : ∀ (value : Expression) (members : List TypeId),
    silentMany text store value members = true →
      checkAgainstMany text store ∅ value members = []
  | .parenthesized expression, members, h => by
    rw [silentMany] at h
    rw [checkAgainstMany]
    exact checkAgainstMany_silent expression members h
  | .object properties, members, h => by
    rw [silentMany] at h
    rw [checkAgainstMany]
    exact checkMembersObject_silent properties members h
  | .array _, _, _ | .conditional _ _, _, _ | .logical _ _ _, _, _ | .other, _, _ => rfl

theorem checkTupleElements_silent : ∀ (elements : List ArrayElement) (index : Nat)
    (tuple : TupleType), silentTupleElements text store elements index tuple = true →
      checkTupleElements text store ∅ elements index tuple = []
  | [], _, _, _ => rfl
  | .spread :: rest, index, tuple, h => by
    rw [checkTupleElements]
    exact checkTupleElements_silent rest (index + 1) tuple h
  | .elision :: rest, index, tuple, h => by
    rw [checkTupleElements]
    exact checkTupleElements_silent rest (index + 1) tuple h
  | .expression expression :: rest, index, tuple, h => by
    rw [silentTupleElements, and_eq_true] at h
    rw [checkTupleElements, checkTupleElements_silent rest (index + 1) tuple h.2, List.append_nil]
    cases htarget : tuple.elements[index]? with
    | none => rfl
    | some target =>
      rw [htarget] at h
      exact collectExcessProperties_silent expression _ h.1

theorem checkArrayElements_silent : ∀ (elements : List ArrayElement) (target : TypeId),
    silentArrayElements text store elements target = true →
      checkArrayElements text store ∅ elements target = []
  | [], _, _ => rfl
  | .spread :: rest, target, h => by
    rw [checkArrayElements]
    exact checkArrayElements_silent rest target h
  | .elision :: rest, target, h => by
    rw [checkArrayElements]
    exact checkArrayElements_silent rest target h
  | .expression expression :: rest, target, h => by
    rw [silentArrayElements, and_eq_true] at h
    rw [checkArrayElements, collectExcessProperties_silent expression _ h.1,
      checkArrayElements_silent rest target h.2, List.append_nil]

end

end Silent

/-! ## §3 Two members -/

/-- The type that a member gives to a key, if it is an object type that names it. -/
def propertyType (store : Store) (ty : TypeId) (name : String) : Option TypeId :=
  ((store.objectType ty).bind (fun object => object.property name)).map
    (fun property => property.ty)

/-- The index signature of a member that accepts a key. -/
def indexType (text : NumberText) (store : Store) (ty : TypeId) (name : String) : Option TypeId :=
  (store.objectType ty).bind (fun object => indexValue text object name)

section Members

variable {text : NumberText} {store : Store} {normalized : FxHashMap TypeId TypeId}

/-- **A key under two members.**  Both contribute to it, or one does, or the first index
    signature accepts it. -/
theorem checkMembersObject_pair (name : String) (span : Span) (value : Expression)
    (rest : List ObjectMember) (a b : TypeId) :
    checkMembersObject text store normalized (.property (some name) span value :: rest) [a, b] =
      (match propertyType store a name, propertyType store b name with
      | some p, some q => checkAgainstMany text store normalized value [p, q]
      | some p, none => collectExcessProperties text store normalized value p
      | none, some q => collectExcessProperties text store normalized value q
      | none, none =>
        match (indexType text store a name).or (indexType text store b name) with
        | some index => collectExcessProperties text store normalized value index
        | none => [⟨span, name, [a, b]⟩])
        ++ checkMembersObject text store normalized rest [a, b] := by
  have hcontributors : contributors store [a, b] name =
      (propertyType store a name).toList ++ (propertyType store b name).toList := by
    show [a, b].filterMap (fun member => propertyType store member name) = _
    cases hp : propertyType store a name <;> cases hq : propertyType store b name <;>
      simp [hp, hq]
  have hindex : memberIndexValue text store [a, b] name =
      (indexType text store a name).or (indexType text store b name) := by
    show [a, b].findSome? (fun member => indexType text store member name) = _
    cases hi : indexType text store a name <;> cases hj : indexType text store b name <;>
      simp [hi, hj]
  rw [checkMembersObject, hcontributors, hindex]
  cases propertyType store a name <;> cases propertyType store b name <;> rfl

variable (text store)

mutual

/-- The value is checked alike against two members in either order. -/
def orderFreeValue : Expression → TypeId → TypeId → Bool
  | .parenthesized expression, p, q => orderFreeValue expression p q
  | .object properties, p, q => orderFree properties p q
  | .array _, _, _ => true
  | .conditional _ _, _, _ => true
  | .logical _ _ _, _, _ => true
  | .other, _, _ => true

/-- No key of the literal is accepted by two different index signatures, unless its value is
    silent for both. -/
def orderFree : List ObjectMember → TypeId → TypeId → Bool
  | [], _, _ => true
  | .spread :: rest, a, b => orderFree rest a b
  | .property none _ _ :: rest, a, b => orderFree rest a b
  | .property (some name) _ value :: rest, a, b =>
    (match propertyType store a name, propertyType store b name with
    | some p, some q => orderFreeValue value p q
    | some _, none => true
    | none, some _ => true
    | none, none =>
      match indexType text store a name, indexType text store b name with
      | some i, some j => i == j || (silent text store value i && silent text store value j)
      | _, _ => true) && orderFree rest a b

end

variable {text store}

mutual

theorem checkAgainstMany_swap : ∀ (value : Expression) (p q : TypeId),
    orderFreeValue text store value p q = true →
      reportedKeys (checkAgainstMany text store ∅ value [p, q]) =
        reportedKeys (checkAgainstMany text store ∅ value [q, p])
  | .parenthesized expression, p, q, h => by
    rw [orderFreeValue] at h
    rw [checkAgainstMany, checkAgainstMany]
    exact checkAgainstMany_swap expression p q h
  | .object properties, p, q, h => by
    rw [orderFreeValue] at h
    rw [checkAgainstMany, checkAgainstMany]
    exact checkMembersObject_swap properties p q h
  | .array _, _, _, _ => rfl
  | .conditional _ _, _, _, _ => rfl
  | .logical _ _ _, _, _, _ => rfl
  | .other, _, _, _ => rfl

/-- **The order of two members does not matter** to a literal whose keys no two index signatures
    compete for. -/
theorem checkMembersObject_swap : ∀ (properties : List ObjectMember) (a b : TypeId),
    orderFree text store properties a b = true →
      reportedKeys (checkMembersObject text store ∅ properties [a, b]) =
        reportedKeys (checkMembersObject text store ∅ properties [b, a])
  | [], _, _, _ => rfl
  | .spread :: rest, a, b, h => by
    rw [checkMembersObject, checkMembersObject]
    exact checkMembersObject_swap rest a b h
  | .property none _ _ :: rest, a, b, h => by
    rw [checkMembersObject, checkMembersObject]
    exact checkMembersObject_swap rest a b h
  | .property (some name) span value :: rest, a, b, h => by
    rw [orderFree, and_eq_true] at h
    rw [checkMembersObject_pair, checkMembersObject_pair, reportedKeys_append,
      reportedKeys_append, checkMembersObject_swap rest a b h.2]
    congr 1
    cases hp : propertyType store a name with
    | some p =>
      cases hq : propertyType store b name with
      | some q =>
        rw [hp, hq] at h
        exact checkAgainstMany_swap value p q h.1
      | none => rfl
    | none =>
      cases hq : propertyType store b name with
      | some q => rfl
      | none =>
        rw [hp, hq] at h
        dsimp only at h ⊢
        cases hi : indexType text store a name with
        | none =>
          rw [none_or, or_none]
          cases indexType text store b name <;> rfl
        | some i =>
          cases hj : indexType text store b name with
          | none => rfl
          | some j =>
            rw [hi, hj, or_eq_true, beq_iff_eq, and_eq_true] at h
            dsimp only [some_or]
            -- either signature may come first
            rcases h.1 with rfl | hsilent
            · rfl
            · rw [collectExcessProperties_silent value i hsilent.1,
                collectExcessProperties_silent value j hsilent.2]

end

/-! ## §4 Values under shared keys -/

/-- A key under an object type. -/
theorem checkObject_property {member : TypeId} {object : ObjectType}
    (hobject : store.objectType member = some object) (name : String) (span : Span)
    (value : Expression) (rest : List ObjectMember) (ty : TypeId) :
    checkObject text store ∅ (.property (some name) span value :: rest) ty object =
      (match propertyType store member name with
      | some p => collectExcessProperties text store ∅ value p
      | none =>
        match indexType text store member name with
        | some index => collectExcessProperties text store ∅ value index
        | none => [⟨span, name, [ty]⟩])
        ++ checkObject text store ∅ rest ty object := by
  have hproperty : propertyType store member name =
      (object.property name).map (fun property => property.ty) := by
    unfold propertyType
    rw [hobject, bind_some]
  have hindex : indexType text store member name = indexValue text object name := by
    unfold indexType
    rw [hobject, bind_some]
  rw [checkObject, hproperty, hindex]
  unfold objectTarget
  cases object.property name with
  | some property =>
    dsimp only [map_some]
    unfold excessRecursionTarget
    rw [collectExcessProperties_target]
  | none => rfl

variable (text store)

mutual

/-- The value of a key that two members name, with the types `p` and `q`, is checked alike against
    both and against the type `c` of the merged object.  Other values than object literals are not
    looked into for two members; an object literal is, and needs two different types that the
    merged one has as its members, or one object type. -/
def sharedFits : Expression → TypeId → TypeId → TypeId → Bool
  | .parenthesized expression, p, q, c => sharedFits expression p q c
  | .object properties, p, q, c =>
    unnamed properties ||
      (if p = q then
        c == p &&
          (match store.objectType p with
          | some object => !isOpenObject object && doubledFits properties object
          | none => false)
      else
        (store.intersectionMembers c == some [p, q] || store.intersectionMembers c == some [q, p])
          && orderFree text store properties p q)
  | .array elements, _, _, c => silent text store (.array elements) c
  | .conditional consequent alternate, _, _, c =>
    silent text store (.conditional consequent alternate) c
  | .logical operator left right, _, _, c => silent text store (.logical operator left right) c
  | .other, _, _, _ => true

/-- The literal is checked alike against an object type and against two members that are this
    object type. -/
def doubledFits : List ObjectMember → ObjectType → Bool
  | [], _ => true
  | .spread :: rest, object => doubledFits rest object
  | .property none _ _ :: rest, object => doubledFits rest object
  | .property (some name) _ value :: rest, object =>
    (match object.property name with
    | some property => sharedFits value property.ty property.ty property.ty
    | none => true) && doubledFits rest object

end

variable {text store}

theorem collectExcessProperties_members {c : TypeId} {members : List TypeId}
    (hc : store.intersectionMembers c = some members) (properties : List ObjectMember) :
    collectExcessProperties text store ∅ (.object properties) c =
      checkMembersObject text store ∅ properties members := by
  have htag : store.tag c = some .intersection :=
    Store.tag_of_row ((store.entry_eq_some_iff .intersections c members).mp hc)
  rw [collectExcessProperties_object, contextualLiteralTarget_of_tag htag (by simp) (by simp), hc]

theorem collectExcessProperties_objectType {ty : TypeId} {object : ObjectType}
    (hty : store.objectType ty = some object) (properties : List ObjectMember) :
    collectExcessProperties text store ∅ (.object properties) ty =
      if isOpenObject object then [] else checkObject text store ∅ properties ty object := by
  have htag := Interner.tag_of_objectType hty
  have hmembers : store.intersectionMembers ty = none := by
    apply Interner.intersectionMembers_of_tag_ne
    simp [htag]
  rw [collectExcessProperties_object, contextualLiteralTarget_of_tag htag (by simp) (by simp),
    hmembers, hty]

mutual

/-- **A shared value** is checked alike against both members, in either order, and against the
    merged type. -/
theorem checkAgainstMany_shared : ∀ (value : Expression) (p q c : TypeId),
    sharedFits text store value p q c = true →
      reportedKeys (checkAgainstMany text store ∅ value [p, q]) =
          reportedKeys (collectExcessProperties text store ∅ value c) ∧
        reportedKeys (checkAgainstMany text store ∅ value [q, p]) =
          reportedKeys (collectExcessProperties text store ∅ value c)
  | .parenthesized expression, p, q, c, h => by
    rw [sharedFits] at h
    rw [checkAgainstMany, checkAgainstMany, collectExcessProperties, walkTarget_empty,
      collectExcessProperties_target]
    exact checkAgainstMany_shared expression p q c h
  | .object properties, p, q, c, h => by
    rw [sharedFits, or_eq_true] at h
    rw [checkAgainstMany, checkAgainstMany]
    rcases h with hunnamed | h
    · rw [checkMembersObject_unnamed hunnamed, checkMembersObject_unnamed hunnamed,
        collectExcessProperties_unnamed hunnamed]
      exact ⟨rfl, rfl⟩
    · by_cases hpq : p = q
      · subst hpq
        rw [if_pos rfl, and_eq_true, beq_iff_eq] at h
        obtain ⟨rfl, h⟩ := h
        cases hobject : store.objectType c with
        | none =>
          rw [hobject] at h
          cases h
        | some object =>
          rw [hobject, and_eq_true, not_eq_true'] at h
          have hdoubled := checkMembersObject_doubled properties c c object hobject h.2
          rw [collectExcessProperties_objectType hobject, h.1]
          exact ⟨hdoubled, hdoubled⟩
      · rw [if_neg hpq, and_eq_true, or_eq_true, beq_iff_eq, beq_iff_eq] at h
        have hswap := checkMembersObject_swap properties p q h.2
        -- the row of the merged type has the two members in the order of their ids
        rcases h.1 with hc | hc
        · rw [collectExcessProperties_members hc]
          exact ⟨rfl, hswap.symm⟩
        · rw [collectExcessProperties_members hc]
          exact ⟨hswap, rfl⟩
  | .array elements, p, q, c, h => by
    rw [sharedFits] at h
    rw [collectExcessProperties_silent _ _ h]
    exact ⟨rfl, rfl⟩
  | .conditional consequent alternate, p, q, c, h => by
    rw [sharedFits] at h
    rw [collectExcessProperties_silent _ _ h]
    exact ⟨rfl, rfl⟩
  | .logical operator left right, p, q, c, h => by
    rw [sharedFits] at h
    rw [collectExcessProperties_silent _ _ h]
    exact ⟨rfl, rfl⟩
  | .other, _, _, _, _ => ⟨rfl, rfl⟩

theorem checkMembersObject_doubled : ∀ (properties : List ObjectMember) (a ty : TypeId)
    (object : ObjectType), store.objectType a = some object →
      doubledFits text store properties object = true →
      reportedKeys (checkMembersObject text store ∅ properties [a, a]) =
        reportedKeys (checkObject text store ∅ properties ty object)
  | [], _, _, _, _, _ => rfl
  | .spread :: rest, a, ty, object, hobject, h => by
    rw [checkMembersObject, checkObject]
    exact checkMembersObject_doubled rest a ty object hobject h
  | .property none _ _ :: rest, a, ty, object, hobject, h => by
    rw [checkMembersObject, checkObject]
    exact checkMembersObject_doubled rest a ty object hobject h
  | .property (some name) span value :: rest, a, ty, object, hobject, h => by
    rw [doubledFits, and_eq_true] at h
    rw [checkMembersObject_pair, checkObject_property hobject, reportedKeys_append,
      reportedKeys_append, checkMembersObject_doubled rest a ty object hobject h.2]
    congr 1
    cases hp : propertyType store a name with
    | some p =>
      have hproperty := h.1
      unfold propertyType at hp
      rw [hobject, bind_some] at hp
      obtain ⟨property, hfound, rfl⟩ := map_eq_some_iff.mp hp
      rw [hfound] at hproperty
      exact (checkAgainstMany_shared value _ _ _ hproperty).1
    | none =>
      rw [Option.or_self]
      cases indexType text store a name <;> rfl

end

end Members

end Typokat.Check.Excess
