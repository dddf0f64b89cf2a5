import Typokat.Types.FreeParams

/-!
# Interner Operations (`typokat-types/src/types/intern/{mod,composites,operators,declared}.rs`)

Every `intern_*` constructor hashes a structural key, asks the bucket of the hash for a
candidate that its own equality closure confirms, and pushes a new row otherwise.  The
hash is an arbitrary function of the key throughout.

A panic is `none`; so is running out of fuel in the two flattening loops, which does not
happen on a store whose unions and intersections are flat (`flattenFuel` is enough).

## Main Definitions

- `Interner.internWith` : the shape all constructors share
- `Interner.union`, `Interner.intersection` : canonical set types
- `Interner.fillReservedTypeBatch` : atomic publication of reserved rows
- `Interner.freezeAsBase`, `Interner.forkDelta` : sealing and forking
-/

namespace Typokat.Types

/-- Replace the reserved body by the supplied one, object properties in canonical order. -/
def ReservedTypeFill.write : ReservedTypeFill → Store → Option Store
  | .object id body, store => store.setObject id body.canonical
  | .conditional id body, store => store.setConditional id body
  | .mapped id body, store => store.setMapped id body

variable (structuralHash : StructuralKey → Nat)

namespace Interner

/-! ## §1 Hash-consing constructors -/

variable (interner : Interner)

/-- Return the candidate that `eq` confirms, or push a row and make it a candidate. -/
def internWith (key : StructuralKey) (eq : Store → TypeId → Bool) (push : Store → TypeId × Store) :
    TypeId × Interner :=
  let hash := structuralHash key
  match interner.lookup hash eq with
  | some existing => (existing, interner)
  | none =>
    let (id, store) := push interner.store
    (id, { interner with store }.pushCandidate hash id)

def internIntrinsic (kind : IntrinsicKind) : TypeId × Interner :=
  interner.internWith structuralHash (.intrinsic kind)
    (fun store id => store.intrinsicKind id == some kind)
    -- the error type is the only intrinsic that carries a flag
    (fun store => store.pushIntrinsic kind
      (if kind = .error then .containsError else .empty))

def internLiteral (value : LiteralValue) : TypeId × Interner :=
  interner.internWith structuralHash (.literal value)
    (fun store id => (store.literalValue id).any (fun existing => LiteralValue.eq existing value))
    (fun store => store.pushLiteral value .empty)

def internTypeParam (id : TypeParamId) (name : String) :
    TypeId × Interner :=
  interner.internWith structuralHash (.typeParam id)
    (fun store ty => (store.typeParam ty).map (fun param => param.id) == some id)
    (fun store => store.pushTypeParam ⟨id, name⟩ .empty)

def internInfer (index : Nat) : TypeId × Interner :=
  interner.internWith structuralHash (.infer index)
    (fun store id => store.inferIndex id == some index)
    (fun store => store.pushInfer index .empty)

/-- `object_props_eq`. -/
def objectPropsEq : List PropertyType → List PropertyType → Bool
  | [], [] => true
  | x :: xs, y :: ys =>
    (x.key == y.key && x.optional == y.optional && x.ty == y.ty && x.writeTy == y.writeTy
      && x.visibility == y.visibility && x.declaringClass == y.declaringClass
      && x.readonly == y.readonly && x.isAccessor == y.isAccessor) && objectPropsEq xs ys
  | _, _ => false

/-- The bucket tie-break of object types. -/
def objectEq (object : ObjectType) (store : Store) (id : TypeId) : Bool :=
  (store.objectType id).any (fun existing =>
    existing.stringIndex == object.stringIndex && existing.numberIndex == object.numberIndex
      && existing.callSignatures == object.callSignatures
      && existing.constructSignatures == object.constructSignatures
      && objectPropsEq existing.properties object.properties)

/-- Properties are put in canonical order before hashing. -/
def internObject (object : ObjectType) : TypeId × Interner :=
  let object := object.canonical
  interner.internWith structuralHash object.key (objectEq object)
    (fun store => store.pushObject object .empty)

def internFunction (function : FunctionType) : TypeId × Interner :=
  interner.internWith structuralHash function.key
    (fun store id => (store.functionType id).any (fun existing =>
      existing.typeParams == function.typeParams && existing.receiver == function.receiver
        && existing.ret == function.ret && existing.params == function.params))
    (fun store => store.pushFunction function .empty)

def internArray (element : TypeId) : TypeId × Interner :=
  interner.internWith structuralHash (.array element)
    (fun store id => store.arrayType id == some element)
    (fun store => store.pushArray element .empty)

def internTupleType (tuple : TupleType) : TypeId × Interner :=
  interner.internWith structuralHash (.tuple tuple)
    (fun store id => (store.tupleType id).any (fun existing => existing == tuple))
    (fun store => store.pushTuple tuple .empty)

/-- `intern_tuple`: a fixed tuple. -/
def internTuple (elements : List TypeId) : TypeId × Interner :=
  interner.internTupleType structuralHash { elements }

def internReadonly (operand : TypeId) : TypeId × Interner :=
  interner.internWith structuralHash (.readonly operand)
    (fun store id => store.readonlyOperand id == some operand)
    (fun store => store.pushReadonly operand .empty)

def internConditional (conditional : ConditionalType) :
    TypeId × Interner :=
  interner.internWith structuralHash conditional.key
    (fun store id => (store.conditionalType id).any (fun existing =>
      existing.check == conditional.check && existing.extendsTy == conditional.extendsTy
        && existing.trueBranch == conditional.trueBranch
        && existing.falseBranch == conditional.falseBranch
        && existing.inferCount == conditional.inferCount
        && existing.distributive == conditional.distributive
        && existing.poisoned == conditional.poisoned))
    (fun store => store.pushConditional conditional .empty)

/-- `args.sort_by_key(|(param, _)| param.0)`: stable. -/
def sortArgs (args : List (TypeParamId × TypeId)) : List (TypeParamId × TypeId) :=
  args.insertionSort (fun a b => a.1 ≤ b.1)

def internInstantiation (base : TypeId) (args : List (TypeParamId × TypeId)) : TypeId × Interner :=
  let args := sortArgs args
  interner.internWith structuralHash (.instantiation base args)
    (fun store id => (store.instantiationType id).any (fun existing =>
      existing.base == base && existing.args == args))
    (fun store => store.pushInstantiation ⟨base, args⟩ .empty)

def internClassInstance (classId : ClassId) (args : List TypeId) :
    TypeId × Interner :=
  interner.internWith structuralHash (.classInstance classId args)
    (fun store id => (store.classInstanceType id).any (fun existing =>
      existing.classId == classId && existing.args == args))
    (fun store => store.pushClassInstance ⟨classId, args⟩ .empty)

def internDeferredIndexedAccess (object index : TypeId) :
    TypeId × Interner :=
  interner.internWith structuralHash (.deferredIndexedAccess object index)
    (fun store id => (store.deferredIndexedAccessType id).any (fun existing =>
      existing.object == object && existing.index == index))
    (fun store => store.pushDeferredIndexedAccess ⟨object, index⟩ .empty)

def internMapped (mapped : MappedType) : TypeId × Interner :=
  interner.internWith structuralHash mapped.key
    (fun store id => (store.mappedType id).any (fun existing =>
      existing.homomorphic == mapped.homomorphic && existing.keySource == mapped.keySource
        && existing.valueTemplate == mapped.valueTemplate
        && existing.modifiersSource == mapped.modifiersSource
        && existing.optionalModifier == mapped.optionalModifier
        && existing.readonlyModifier == mapped.readonlyModifier))
    (fun store => store.pushMapped mapped .empty)

def internKeyof (operand : TypeId) : TypeId × Interner :=
  interner.internWith structuralHash (.keyof operand)
    (fun store id => store.keyofOperand id == some operand)
    (fun store => store.pushKeyof operand .empty)

def internTemplate (template : TemplateType) : TypeId × Interner :=
  interner.internWith structuralHash (.template template.texts template.holes)
    (fun store id => (store.templateType id).any (fun existing =>
      existing.texts == template.texts && existing.holes == template.holes))
    (fun store => store.pushTemplate template .empty)

def internMappedValue : TypeId × Interner :=
  interner.internWith structuralHash .mappedValue
    (fun store id => store.tag id == some .mappedValue)
    (fun store => store.pushMappedValue .empty)

/-! ## §2 Unions and intersections -/

/-- The flattening loop: `members` is the work stack with its top last, `nested` reads the
    members of a row that is expanded.  A member without a row is a panic. -/
def flatten (store : Store) (nested : TypeId → Option (List TypeId)) :
    Nat → List TypeId → List TypeId → Option (List TypeId)
  | fuel, members, flat =>
    match members.getLast? with
    | none => some flat
    | some member =>
      match fuel, store.tag member with
      | fuel + 1, some _ =>
        match nested member with
        | some inner => flatten store nested fuel (members.dropLast ++ inner) flat
        | none => flatten store nested fuel members.dropLast (flat ++ [member])
      | _, _ => none

/-- One step for each member and for each member of a nested row. -/
def flattenFuel (nested : TypeId → Option (List TypeId)) (members : List TypeId) : Nat :=
  (members.map (fun member => 1 + ((nested member).getD []).length)).sum

/-- `sort_unstable` and `dedup`. -/
def sortDedup (members : List TypeId) : List TypeId := FxHashSet.sorted members.toFinset

/-- Hash-cons a canonical union of at least two members. -/
def internUnion (flat : List TypeId) : TypeId × Interner :=
  interner.internWith structuralHash (.union flat)
    (fun store id => (store.unionMembers id).any (fun existing => existing == flat))
    (fun store => store.pushUnion flat .empty)

/-- The canonical union of flat members: absorb, drop, sort, collapse, hash-cons. -/
def unionOfFlat (flat : List TypeId) : TypeId × Interner :=
  let wk := interner.wellKnown
  -- top-like members absorb the whole union and suppress cascades
  if flat.any (fun m => m == wk.any || m == wk.error) then (wk.any, interner)
  else if flat.contains wk.unknown then (wk.unknown, interner)
  else
    match sortDedup (flat.filter (fun m => m != wk.never)) with
    | [] => (wk.never, interner)
    | [single] => (single, interner)
    | canonical => interner.internUnion structuralHash canonical

/-- The members with every nested set type of the side table expanded. -/
def flattenMembers (nested : Store → TypeId → Option (List TypeId)) (members : List TypeId) :
    Option (List TypeId) :=
  flatten interner.store (nested interner.store) (flattenFuel (nested interner.store) members)
    members []

def union (members : List TypeId) : Option (TypeId × Interner) :=
  (interner.flattenMembers Store.unionMembers members).map (interner.unionOfFlat structuralHash)

/-- `DisjointDomain`. -/
inductive DisjointDomain
  | null | voidLike | boolean | number | string | bigInt | symbol | nonPrimitive
  deriving DecidableEq, Repr

/-- `disjoint_domain`. -/
def disjointDomain (store : Store) (ty : TypeId) : Option DisjointDomain :=
  match store.intrinsicKind ty with
  | some .null => some .null
  | some .void => some .voidLike
  | some .undefined => some .voidLike
  | some .boolean => some .boolean
  | some .number => some .number
  | some .string => some .string
  | some .bigInt => some .bigInt
  | some .symbol => some .symbol
  | some .object => some .nonPrimitive
  | _ => (store.literalValue ty).map (fun
    | .boolean _ => .boolean
    | .number _ => .number
    | .string _ => .string
    | .wellKnownSymbol _ => .symbol)

/-- The last step of `definitely_disjoint`, between members that are no unions. -/
def disjointLeaves (store : Store) (left right : TypeId) : Bool :=
  match disjointDomain store left, disjointDomain store right with
  | some leftDomain, some rightDomain =>
    if leftDomain ≠ rightDomain then true
    else
      match store.literalValue left, store.literalValue right with
      | some leftValue, some rightValue => !LiteralValue.eq leftValue rightValue
      | _, _ => false
  | _, _ => false

/-- `definitely_disjoint`; the recursion descends into unions on either side.  Stored unions
    are flat, so two levels of descent reach the leaves. -/
def definitelyDisjoint (store : Store) : Nat → TypeId → TypeId → Bool
  | 0, left, right => disjointLeaves store left right
  | fuel + 1, left, right =>
    match store.unionMembers left with
    | some members =>
      !members.isEmpty && members.all (fun member => definitelyDisjoint store fuel member right)
    | none =>
      match store.unionMembers right with
      | some members =>
        !members.isEmpty && members.all (fun member => definitelyDisjoint store fuel left member)
      | none => disjointLeaves store left right

/-- Members that the disjointness test skips. -/
def hasNoDomain (store : Store) (ty : TypeId) : Bool :=
  (disjointDomain store ty).isNone && (store.unionMembers ty).isNone

/-- `has_definitely_disjoint_members`. -/
def hasDefinitelyDisjointMembers (store : Store) : List TypeId → Bool
  | [] => false
  | left :: rest =>
    (!hasNoDomain store left && rest.any (fun right =>
      !hasNoDomain store right && definitelyDisjoint store 2 left right))
      || hasDefinitelyDisjointMembers store rest

/-- Hash-cons a canonical intersection of at least two members. -/
def internIntersection (flat : List TypeId) : TypeId × Interner :=
  interner.internWith structuralHash (.intersection flat)
    (fun store id => (store.intersectionMembers id).any (fun existing => existing == flat))
    (fun store => store.pushIntersection flat .empty)

/-- The canonical intersection of flat members: absorb, drop, sort, reduce, collapse,
    hash-cons. -/
def intersectionOfFlat (flat : List TypeId) : TypeId × Interner :=
  let wk := interner.wellKnown
  -- the error type absorbs first, then `never` annihilates, then `any` absorbs
  if flat.contains wk.error then (wk.any, interner)
  else if flat.contains wk.never then (wk.never, interner)
  else if flat.contains wk.any then (wk.any, interner)
  else
    let canonical := sortDedup (flat.filter (fun m => m != wk.unknown))
    if hasDefinitelyDisjointMembers interner.store canonical then (wk.never, interner)
    else
      match canonical with
      | [] => (wk.unknown, interner)
      | [single] => (single, interner)
      | canonical => interner.internIntersection structuralHash canonical

def intersection (members : List TypeId) : Option (TypeId × Interner) :=
  (interner.flattenMembers Store.intersectionMembers members).map
    (interner.intersectionOfFlat structuralHash)

/-! ## §3 Reservations -/

variable (id : TypeId)

/-- `register_reserved_type`. -/
def registerReservedType (kind : ReservedTypeKind) :
    TypeId × Interner :=
  (id, { interner with reservedTypes := interner.reservedTypes.insert id ⟨kind, .pending⟩ })

def reserveObject : TypeId × Interner :=
  let (id, store) := interner.store.pushObject {} .empty
  { interner with store }.registerReservedType id .object

/-- The neutral body of a conditional template, plain or poisoned. -/
def errorConditional (poisoned : Bool) : ConditionalType :=
  { check := interner.wellKnown.error
    extendsTy := interner.wellKnown.error
    trueBranch := interner.wellKnown.error
    falseBranch := interner.wellKnown.error
    inferCount := 0
    distributive := false
    poisoned }

def reserveConditional : TypeId × Interner :=
  let (id, store) := interner.store.pushConditional (interner.errorConditional false) .empty
  { interner with store }.registerReservedType id .conditional

/-- The neutral body of a mapped template. -/
def errorMapped : MappedType :=
  { homomorphic := false
    keySource := interner.wellKnown.error
    valueTemplate := interner.wellKnown.error
    modifiersSource := none
    optionalModifier := .keep
    readonlyModifier := .keep }

def reserveMapped : TypeId × Interner :=
  let (id, store) := interner.store.pushMapped interner.errorMapped .empty
  { interner with store }.registerReservedType id .mapped

/-- Whether the row behind a reservation has the reserved kind. -/
def validBackingRow (store : Store) (kind : ReservedTypeKind) (id : TypeId) : Bool :=
  match kind with
  | .object => (store.objectType id).isSome
  | .conditional => (store.conditionalType id).isSome
  | .mapped => (store.mappedType id).isSome

/-- The checks of one fill against its reservation. -/
def validateFill (fill : ReservedTypeFill) :
    Except ReservedTypeFillError Unit :=
  let id := fill.target
  match interner.reservedType id with
  | none => .error (.notReserved id)
  | some reserved =>
    if reserved.kind ≠ fill.kind then .error (.kindMismatch id reserved.kind fill.kind)
    else if reserved.state = .frozen then .error (.alreadyFrozen id)
    else if !validBackingRow interner.store reserved.kind id then .error (.invalidBackingRow id)
    else .ok ()

/-- Every fallible check of a batch, in order. -/
def validateFills (fills : List ReservedTypeFill) :
    Except ReservedTypeFillError Unit :=
  match Store.firstDuplicate ∅ (fills.map ReservedTypeFill.target) with
  | some id => .error (.duplicate id)
  | none => fills.forM interner.validateFill

/-- Write one validated fill and freeze its reservation. -/
def applyFill (fill : ReservedTypeFill) : Option Interner := do
  let store ← fill.write interner.store
  let reserved ← interner.reservedTypes.lookup fill.target
  some { interner with
    store
    reservedTypes := interner.reservedTypes.insert fill.target { reserved with state := .frozen } }

/-- Atomically fill and freeze a complete recursive publication batch. -/
def fillReservedTypeBatch (fills : List ReservedTypeFill) :
    Option (Except ReservedTypeFillError Unit × Interner) :=
  match interner.validateFills fills with
  | .error error => some (.error error, interner)
  | .ok () => do
    let marked :=
      if fills.isEmpty then interner
      else { interner with store := interner.store.markSemanticGraphMutation }
    let filled ← fills.foldlM applyFill marked
    some (.ok (), filled)

/-- A fill that must succeed: its error is a panic. -/
def expectFill (fill : ReservedTypeFill) : Option Interner :=
  (interner.fillReservedTypeBatch [fill]).bind (fun
    | (.ok (), filled) => some filled
    | (.error _, _) => none)

def fillObject (object : ObjectType) : Option Interner :=
  interner.expectFill (.object id object)

def fillConditional (conditional : ConditionalType) :
    Option Interner :=
  interner.expectFill (.conditional id conditional)

def fillMapped (mapped : MappedType) : Option Interner :=
  interner.expectFill (.mapped id mapped)

def abandonReservedObject :
    Option (Except ReservedTypeFillError Unit × Interner) :=
  interner.fillReservedTypeBatch [.object id {}]

def poisonReservedConditional :
    Option (Except ReservedTypeFillError Unit × Interner) :=
  interner.fillReservedTypeBatch [.conditional id (interner.errorConditional true)]

def poisonReservedMapped :
    Option (Except ReservedTypeFillError Unit × Interner) :=
  interner.fillReservedTypeBatch [.mapped id interner.errorMapped]

/-- `promote_caller_certified_acyclic_reserved_object`. -/
def promoteCallerCertifiedAcyclicReservedObject :
    Except ReservedObjectPromotionError TypeId × Interner :=
  if id ∈ interner.reservedTypesBase then (.error (.notReserved id), interner)
  else
    match interner.reservedType id with
    | none => (.error (.notReserved id), interner)
    | some reserved =>
      if reserved.kind ≠ .object then (.error (.kindMismatch id), interner)
      else if reserved.state ≠ .frozen then (.error (.notFrozen id), interner)
      else
        match interner.store.objectType id with
        | none => (.error (.invalidBackingRow id), interner)
        | some object =>
          let hash := structuralHash object.key
          match interner.lookup hash (objectEq object) with
          | some existing => (.ok existing, interner)
          | none =>
            (.ok id, { interner with
              reservedTypes := interner.reservedTypes.erase id }.pushCandidate hash id)

/-! ## §4 Declared recipes -/

/-- `derive_declared_recipe_free_params`; a failed assertion is a panic. -/
def deriveDeclaredRecipeFreeParams (node : DeclaredRecipeNode) :
    Option (List TypeParamId × Interner) :=
  let recipeParams := fun child =>
    ((interner.store.declaredRecipe child).map (fun recipe => recipe.freeParams)).getD []
  match node with
  | .type ty => do
    let (free, interner) ← interner.derivedFreeParams ty
    some (sortDedup free, interner)
  | .array child => some (sortDedup (recipeParams child), interner)
  | .readonly child => some (sortDedup (recipeParams child), interner)
  | .tuple elements rest =>
    if rest.all (fun rest => decide (rest.1 ≤ elements.length)) then
      let children := elements ++ rest.toList.map (fun rest => rest.2)
      some (sortDedup (children.flatMap recipeParams), interner)
    else none
  | .application template parameters arguments =>
    if parameters.length = arguments.length ∧ parameters.Nodup then do
      let (free, interner) ← interner.derivedFreeParams template
      let outer := free.filter (fun p => decide (p ∉ parameters))
      some (sortDedup (outer ++ arguments.flatMap recipeParams), interner)
    else none

def internDeclaredRecipe (node : DeclaredRecipeNode) :
    Option (DeclaredRecipeId × Interner) := do
  let (freeParams, interner) ← interner.deriveDeclaredRecipeFreeParams node
  let recipe : DeclaredTypeRecipe := ⟨node, freeParams⟩
  match (interner.declaredRecipeLocal.lookup recipe).or
      (interner.declaredRecipeBase.lookup recipe) with
  | some id => some (id, interner)
  | none =>
    let (id, store) := interner.store.pushDeclaredRecipe recipe
    some (id, { interner with
      store
      declaredRecipeLocal := interner.declaredRecipeLocal.insert recipe id })

/-- `dedup_by_key`: drop an entry whose key equals that of the entry kept before it. -/
def dedupByKey : List (TypeParamId × TypeId) → List (TypeParamId × TypeId)
  | [] => []
  | entry :: rest =>
    match dedupByKey rest with
    | [] => [entry]
    | next :: kept => if entry.1 = next.1 then entry :: kept else entry :: next :: kept

/-- The entries that concern the recipe, sorted by parameter and without repetition. -/
def canonicalMapper (recipe : DeclaredTypeRecipe) (mapper : List (TypeParamId × TypeId)) :
    List (TypeParamId × TypeId) :=
  dedupByKey (sortArgs (mapper.filter (fun entry => decide (entry.1 ∈ recipe.freeParams))))

/-- Hash-cons a canonical declared application. -/
def internDeclaredType (declared : DeclaredType) : TypeId × Interner :=
  interner.internWith structuralHash (.declared declared.recipe declared.mapper)
    (fun store id => store.declaredType id == some declared)
    (fun store => store.pushDeclared declared .empty)

def internDeclared (recipe : DeclaredRecipeId) (mapper : List (TypeParamId × TypeId)) :
    Option (TypeId × Interner) :=
  (interner.store.declaredRecipe recipe).map (fun body =>
    interner.internDeclaredType structuralHash ⟨recipe, canonicalMapper body mapper⟩)

/-! ## §5 Side columns, sealing and forking -/

def setTypeParamConstraint (interner : Interner) (id : TypeParamId) (constraint : TypeId) :
    Bool × Interner :=
  let (recorded, store) := interner.store.setTypeParamConstraint id constraint
  (recorded, { interner with store })

def removeTypeParamConstraint (interner : Interner) (id : TypeParamId) : Bool × Interner :=
  let (erased, store) := interner.store.removeTypeParamConstraint id
  (erased, { interner with store })

def freezeTypeParamMetadata (interner : Interner) (ids : List TypeParamId) :
    Except Store.TypeParamFreezeError Unit × Interner :=
  let (result, store) := interner.store.freezeTypeParamMetadata ids
  (result, { interner with store })

/-- Intern the intrinsics of a list and collect the id of each kind. -/
def internIntrinsics (interner : Interner) (idOf : IntrinsicKind → TypeId) :
    List IntrinsicKind → (IntrinsicKind → TypeId) × Interner
  | [] => (idOf, interner)
  | kind :: kinds =>
    let (id, interner) := interner.internIntrinsic structuralHash kind
    interner.internIntrinsics (Function.update idOf kind id) kinds

/-- `with_intrinsics`: a fresh interner with the intrinsics in canonical order. -/
def withIntrinsics : Interner :=
  let (idOf, interner) := empty.internIntrinsics structuralHash (fun _ => 0) IntrinsicKind.all
  { interner with wellKnown := WellKnown.ofKinds idOf }

/-- Whether some reservation has not been filled. -/
def hasPendingReservation : Bool :=
  decide (∃ id ∈ interner.reservedTypes.keys,
    (interner.reservedTypes.lookup id).any (fun reserved => reserved.state == .pending) = true)

/-- Align every derived cache with the graph. -/
def alignCaches : Interner :=
  let identity := interner.store.semanticGraphIdentity
  { interner with
    freeParamSummaries := interner.freeParamSummaries.alignWith identity
    applicationKeyModes := interner.applicationKeyModes.alignWith identity
    cleanApplicationResults := interner.cleanApplicationResults.alignWith identity }

/-- Seal a complete standalone interner as the immutable shared base.  The store is only
    left half sealed by an error of its own, which an aligned store does not raise. -/
def freezeAsBase (interner : Interner) : Except String Unit × Interner :=
  if !FxHashMap.isEmpty interner.dedupBase || !FxHashMap.isEmpty interner.reservedTypesBase
      || !FxHashMap.isEmpty interner.declaredRecipeBase then
    (.error "interner is already sealed", interner)
  else if interner.hasPendingReservation then
    (.error "interner has pending reserved types", interner)
  else
    let interner := interner.alignCaches
    match interner.store.freezeAsBase with
    | .error error => (.error error, interner)
    | .ok store =>
      (.ok (), { interner with
        store
        freeParamSummaries := interner.freeParamSummaries.freezeAsBase
        applicationKeyModes := interner.applicationKeyModes.freezeAsBase
        cleanApplicationResults := interner.cleanApplicationResults.freezeAsBase
        dedupBase := interner.dedup
        dedup := ∅
        declaredRecipeBase := interner.declaredRecipeLocal
        declaredRecipeLocal := ∅
        reservedTypesBase := interner.reservedTypes
        reservedTypes := ∅ })

/-- Create an isolated interner suffix over this sealed base. -/
def forkDelta (interner : Interner) : Except String Interner :=
  if !FxHashMap.isEmpty interner.dedup || !FxHashMap.isEmpty interner.reservedTypes
      || !FxHashMap.isEmpty interner.declaredRecipeLocal then
    .error "interner base has an unpublished suffix"
  else do
    let store ← interner.store.forkDelta
    let identity := store.semanticGraphIdentity
    pure { interner with
      store
      freeParamSummaries := interner.freeParamSummaries.forkDelta identity
      applicationKeyModes := interner.applicationKeyModes.forkDelta identity
      cleanApplicationResults := interner.cleanApplicationResults.forkDelta identity }

end Interner

end Typokat.Types
