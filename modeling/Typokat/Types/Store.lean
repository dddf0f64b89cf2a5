import Typokat.Types.Layered

/-!
# Struct-of-Arrays Arena (`typokat-types/src/types/store.rs`)

Hot columns are indexed by `TypeId`; variable-size data lives in the side table that
the tag selects, at the index the payload column holds.  The fifteen side tables of
the source differ only in their entry type, so they are one family indexed by
`SideTable`.

The rendering-only `template_names` column and the unread `stable_hash` column are left
out.

## Main Definitions

- `Store` : the columns and side tables
- `Store.row` : the row an id denotes, assembled from tag, payload and side table
-/

namespace Typokat.Types

/-! ## §1 Side tables -/

/-- The side tables that a payload indexes. -/
inductive SideTable
  | literals | objects | unions | intersections | functions | typeParams | arrays | tuples
  | conditionals | instantiations | classInstances | deferredIndexedAccesses | declaredTypes
  | mapped | templates
  deriving DecidableEq, Repr

/-- What a side table stores. -/
def SideTable.Entry : SideTable → Type
  | .literals => LiteralValue
  | .objects => ObjectType
  | .unions => List TypeId
  | .intersections => List TypeId
  | .functions => FunctionType
  | .typeParams => TypeParamType
  | .arrays => TypeId
  | .tuples => TupleType
  | .conditionals => ConditionalType
  | .instantiations => InstantiationType
  | .classInstances => ClassInstanceType
  | .deferredIndexedAccesses => DeferredIndexedAccessType
  | .declaredTypes => DeclaredType
  | .mapped => MappedType
  | .templates => TemplateType

/-- The tag whose rows address the side table. -/
def SideTable.tag : SideTable → TypeTag
  | .literals => .literal
  | .objects => .object
  | .unions => .union
  | .intersections => .intersection
  | .functions => .function
  | .typeParams => .typeParam
  | .arrays => .array
  | .tuples => .tuple
  | .conditionals => .conditional
  | .instantiations => .instantiation
  | .classInstances => .classInstance
  | .deferredIndexedAccesses => .deferredIndexedAccess
  | .declaredTypes => .declared
  | .mapped => .mapped
  | .templates => .template

/-- The side table a tag selects; the other tags keep their data in the payload. -/
def TypeTag.sideTable : TypeTag → Option SideTable
  | .literal => some .literals
  | .object => some .objects
  | .union => some .unions
  | .intersection => some .intersections
  | .function => some .functions
  | .typeParam => some .typeParams
  | .array => some .arrays
  | .tuple => some .tuples
  | .conditional => some .conditionals
  | .instantiation => some .instantiations
  | .classInstance => some .classInstances
  | .deferredIndexedAccess => some .deferredIndexedAccesses
  | .declared => some .declaredTypes
  | .mapped => some .mapped
  | .template => some .templates
  | .intrinsic | .readonly | .infer | .mappedValue | .keyof => none

@[simp] theorem SideTable.sideTable_tag (t : SideTable) : t.tag.sideTable = some t := by
  cases t <;> rfl

theorem TypeTag.sideTable_eq_some {tag : TypeTag} {t : SideTable} :
    tag.sideTable = some t ↔ tag = t.tag := by
  cases tag <;> cases t <;> decide

theorem SideTable.tag_injective : Function.Injective SideTable.tag := by
  intro a b h
  have := congrArg TypeTag.sideTable h
  simpa using this

/-! ## §2 Rows -/

/-- A row of the arena, assembled from its tag, payload and side-table entry. -/
inductive Row
  | intrinsic (kind : IntrinsicKind)
  | literal (value : LiteralValue)
  | object (object : ObjectType)
  | union (members : List TypeId)
  | intersection (members : List TypeId)
  | function (function : FunctionType)
  | typeParam (param : TypeParamType)
  | array (element : TypeId)
  | tuple (tuple : TupleType)
  | readonly (operand : TypeId)
  | conditional (conditional : ConditionalType)
  | instantiation (instantiation : InstantiationType)
  | classInstance (instance_ : ClassInstanceType)
  | infer (index : Nat)
  | mapped (mapped : MappedType)
  | mappedValue
  | template (template : TemplateType)
  | keyof (operand : TypeId)
  | deferredIndexedAccess (access : DeferredIndexedAccessType)
  | declared (declared : DeclaredType)
  deriving DecidableEq, Repr

/-- The row of a side-table entry. -/
def Row.ofEntry : (t : SideTable) → t.Entry → Row
  | .literals => Row.literal
  | .objects => Row.object
  | .unions => Row.union
  | .intersections => Row.intersection
  | .functions => Row.function
  | .typeParams => Row.typeParam
  | .arrays => Row.array
  | .tuples => Row.tuple
  | .conditionals => Row.conditional
  | .instantiations => Row.instantiation
  | .classInstances => Row.classInstance
  | .deferredIndexedAccesses => Row.deferredIndexedAccess
  | .declaredTypes => Row.declared
  | .mapped => Row.mapped
  | .templates => Row.template

/-- The tag of a row. -/
def Row.tag : Row → TypeTag
  | .intrinsic _ => .intrinsic
  | .literal _ => .literal
  | .object _ => .object
  | .union _ => .union
  | .intersection _ => .intersection
  | .function _ => .function
  | .typeParam _ => .typeParam
  | .array _ => .array
  | .tuple _ => .tuple
  | .readonly _ => .readonly
  | .conditional _ => .conditional
  | .instantiation _ => .instantiation
  | .classInstance _ => .classInstance
  | .infer _ => .infer
  | .mapped _ => .mapped
  | .mappedValue => .mappedValue
  | .template _ => .template
  | .keyof _ => .keyof
  | .deferredIndexedAccess _ => .deferredIndexedAccess
  | .declared _ => .declared

/-- The row of a tag that keeps its data in the payload. -/
def Row.ofInline (tag : TypeTag) (payload : Nat) : Option Row :=
  match tag with
  | .intrinsic =>
    (IntrinsicKind.all.find? (fun kind => kind.discriminant == payload)).map Row.intrinsic
  | .readonly => some (.readonly payload)
  | .infer => some (.infer payload)
  | .keyof => some (.keyof payload)
  | .mappedValue => some .mappedValue
  | _ => none

@[simp] theorem Row.tag_ofEntry (t : SideTable) (entry : t.Entry) :
    (Row.ofEntry t entry).tag = t.tag := by
  cases t <;> rfl

theorem Row.ofEntry_injective (t : SideTable) : Function.Injective (Row.ofEntry t) := by
  intro a b h
  cases t <;> injection h

theorem Row.tag_of_ofInline {tag : TypeTag} {payload : Nat} {row : Row}
    (h : Row.ofInline tag payload = some row) : row.tag = tag := by
  cases tag <;> simp only [Row.ofInline, Option.some.injEq, Option.map_eq_some_iff,
    reduceCtorEq] at h
  case intrinsic =>
    obtain ⟨kind, _, rfl⟩ := h
    rfl
  all_goals
    subst h
    rfl

/-! ## §3 The arena -/

/-- The arena.  Identity tokens are counted up; a token is compared only within one
    interner and the forks made from it, which never see two meanings of one token. -/
structure Store where
  semanticGraphIdentity : Nat := 0
  sealedTypeParamIds : FxHashSet TypeParamId := ∅
  tagColumn : LayeredVec TypeTag := {}
  flagsColumn : LayeredVec TypeFlags := {}
  payloadColumn : LayeredVec Nat := {}
  tables : (t : SideTable) → LayeredVec t.Entry := fun _ => {}
  typeParamNames : LayeredMap TypeParamId String := {}
  declaredRecipes : LayeredVec DeclaredTypeRecipe := {}
  typeParamConstraints : LayeredMap TypeParamId TypeId := {}
  frozenTypeParams : LayeredSet TypeParamId := {}

namespace Store

/-- `Store::new`. -/
def new : Store := {}

def len (s : Store) : Nat := s.tagColumn.len

def baseLen (s : Store) : Nat := s.tagColumn.baseLen

variable (s : Store)

variable (id : TypeId)

/-- `none` stands for the panic of an id that is out of range. -/
def tag : Option TypeTag := s.tagColumn.get id

def flags : Option TypeFlags := s.flagsColumn.get id

def payload : Option Nat := s.payloadColumn.get id

def markSemanticGraphMutation : Store :=
  { s with semanticGraphIdentity := s.semanticGraphIdentity + 1 }

/-- The side-table entry of a row with the table's tag. -/
def entry (t : SideTable) (id : TypeId) : Option t.Entry :=
  if s.tag id = some t.tag then (s.payload id).bind (s.tables t).get else none

/-- The payload of a row with the given tag. -/
def inlinePayload (tag : TypeTag) (id : TypeId) : Option Nat :=
  if s.tag id = some tag then s.payload id else none

def intrinsicKind : Option IntrinsicKind :=
  (s.inlinePayload .intrinsic id).bind
    (fun raw => IntrinsicKind.all.find? (fun kind => kind.discriminant == raw))

def literalValue : TypeId → Option LiteralValue := s.entry .literals
def objectType : TypeId → Option ObjectType := s.entry .objects
def functionType : TypeId → Option FunctionType := s.entry .functions
def typeParam : TypeId → Option TypeParamType := s.entry .typeParams
def arrayType : TypeId → Option TypeId := s.entry .arrays
def tupleType : TypeId → Option TupleType := s.entry .tuples
def readonlyOperand : TypeId → Option TypeId := s.inlinePayload .readonly
def conditionalType : TypeId → Option ConditionalType := s.entry .conditionals
def instantiationType : TypeId → Option InstantiationType := s.entry .instantiations
def classInstanceType : TypeId → Option ClassInstanceType := s.entry .classInstances
def deferredIndexedAccessType : TypeId → Option DeferredIndexedAccessType :=
  s.entry .deferredIndexedAccesses
def declaredType : TypeId → Option DeclaredType := s.entry .declaredTypes
def inferIndex : TypeId → Option Nat := s.inlinePayload .infer
def mappedType : TypeId → Option MappedType := s.entry .mapped
def templateType : TypeId → Option TemplateType := s.entry .templates
def keyofOperand : TypeId → Option TypeId := s.inlinePayload .keyof
def unionMembers : TypeId → Option (List TypeId) := s.entry .unions
def intersectionMembers : TypeId → Option (List TypeId) := s.entry .intersections

def declaredRecipe (id : DeclaredRecipeId) : Option DeclaredTypeRecipe :=
  s.declaredRecipes.get id

def typeParamConstraint (id : TypeParamId) : Option TypeId :=
  s.typeParamConstraints.get id

/-- The row an id denotes. -/
def row : Option Row :=
  (s.tag id).bind (fun tag =>
    match tag.sideTable with
    | some t => (s.entry t id).map (Row.ofEntry t)
    | none => (s.payload id).bind (Row.ofInline tag))

/-! ## §4 Appending -/

/-- Push a row with the given hot attributes. -/
def push (tag : TypeTag) (flags : TypeFlags) (payload : Nat) : TypeId × Store :=
  (s.tagColumn.len,
    { s with
      tagColumn := (s.tagColumn.pushLocal tag).2
      flagsColumn := (s.flagsColumn.pushLocal flags).2
      payloadColumn := (s.payloadColumn.pushLocal payload).2 })

/-- Push a row whose data goes into a side table. -/
def pushEntry (t : SideTable) (value : t.Entry) (flags : TypeFlags) :
    TypeId × Store :=
  let payload := (s.tables t).len
  { s with tables := Function.update s.tables t ((s.tables t).pushLocal value).2 }.push
    t.tag flags payload

def pushIntrinsic (kind : IntrinsicKind) (flags : TypeFlags) : TypeId × Store :=
  s.push .intrinsic flags kind.discriminant

def pushLiteral (value : LiteralValue) (flags : TypeFlags) : TypeId × Store :=
  s.pushEntry .literals value flags

def pushObject (object : ObjectType) (flags : TypeFlags) : TypeId × Store :=
  s.pushEntry .objects object flags

def pushFunction (function : FunctionType) (flags : TypeFlags) : TypeId × Store :=
  s.pushEntry .functions function flags

def pushUnion (members : List TypeId) (flags : TypeFlags) : TypeId × Store :=
  s.pushEntry .unions members flags

def pushIntersection (members : List TypeId) (flags : TypeFlags) : TypeId × Store :=
  s.pushEntry .intersections members flags

/-- The name index is append-only: a name already recorded for the id is kept, also in the
    new row. -/
def pushTypeParam (param : TypeParamType) (flags : TypeFlags) : TypeId × Store :=
  let (retained, names) := s.typeParamNames.insertAppendOnly param.id param.name
  { s with typeParamNames := names }.pushEntry .typeParams
    { param with name := retained.getD param.name } flags

def pushArray (element : TypeId) (flags : TypeFlags) : TypeId × Store :=
  s.pushEntry .arrays element flags

def pushTuple (tuple : TupleType) (flags : TypeFlags) : TypeId × Store :=
  s.pushEntry .tuples tuple flags

def pushReadonly (operand : TypeId) (flags : TypeFlags) : TypeId × Store :=
  s.push .readonly flags operand

def pushConditional (conditional : ConditionalType) (flags : TypeFlags) :
    TypeId × Store :=
  s.pushEntry .conditionals conditional flags

def pushInstantiation (instantiation : InstantiationType) (flags : TypeFlags) :
    TypeId × Store :=
  s.pushEntry .instantiations instantiation flags

def pushClassInstance (classInstance : ClassInstanceType) (flags : TypeFlags) :
    TypeId × Store :=
  s.pushEntry .classInstances classInstance flags

def pushDeferredIndexedAccess (access : DeferredIndexedAccessType) (flags : TypeFlags) :
    TypeId × Store :=
  s.pushEntry .deferredIndexedAccesses access flags

def pushDeclaredRecipe (recipe : DeclaredTypeRecipe) : DeclaredRecipeId × Store :=
  (s.declaredRecipes.len, { s with declaredRecipes := (s.declaredRecipes.pushLocal recipe).2 })

def pushDeclared (declared : DeclaredType) (flags : TypeFlags) : TypeId × Store :=
  s.pushEntry .declaredTypes declared flags

def pushInfer (index : Nat) (flags : TypeFlags) : TypeId × Store :=
  s.push .infer flags index

def pushMapped (mapped : MappedType) (flags : TypeFlags) : TypeId × Store :=
  s.pushEntry .mapped mapped flags

def pushKeyof (operand : TypeId) (flags : TypeFlags) : TypeId × Store :=
  s.push .keyof flags operand

def pushMappedValue (flags : TypeFlags) : TypeId × Store :=
  s.push .mappedValue flags 0

def pushTemplate (template : TemplateType) (flags : TypeFlags) : TypeId × Store :=
  s.pushEntry .templates template flags

/-! ## §5 Replacing a reserved body -/

/-- Replace the body of a row in place; `none` is the panic of a row with another tag or
    without a writable slot. -/
def setEntry (t : SideTable) (id : TypeId) (value : t.Entry) : Option Store :=
  if s.tag id = some t.tag then do
    let payload ← s.payload id
    let table ← (s.tables t).setLocal payload value
    some { s with tables := Function.update s.tables t table }
  else none

def setObject (object : ObjectType) : Option Store :=
  s.setEntry .objects id object

def setConditional (conditional : ConditionalType) : Option Store :=
  s.setEntry .conditionals id conditional

def setMapped (mapped : MappedType) : Option Store :=
  s.setEntry .mapped id mapped

/-! ## §6 Type-parameter side columns -/

def typeParamBelongsToBase (id : TypeParamId) : Bool :=
  decide (id ∈ s.sealedTypeParamIds)

/-- Record a constraint; the flag says whether it was recorded. -/
def setTypeParamConstraint (id : TypeParamId) (constraint : TypeId) :
    Bool × Store :=
  if s.typeParamBelongsToBase id || s.frozenTypeParams.contains id then (false, s)
  else
    match s.typeParamConstraints.insertLocal id constraint with
    | .error _ => (false, s)
    | .ok (previous, constraints) =>
      let s := { s with typeParamConstraints := constraints }
      (true, if previous ≠ some constraint then s.markSemanticGraphMutation else s)

/-- Erase a constraint; the flag says whether it may be erased. -/
def removeTypeParamConstraint (id : TypeParamId) : Bool × Store :=
  if s.typeParamBelongsToBase id || s.frozenTypeParams.contains id then (false, s)
  else
    match s.typeParamConstraints.removeLocal id with
    | .error _ => (false, s)
    | .ok (removed, constraints) =>
      let s := { s with typeParamConstraints := constraints }
      (true, if removed.isSome then s.markSemanticGraphMutation else s)

/-- `TypeParamFreezeError`. -/
inductive TypeParamFreezeError
  | duplicate (id : TypeParamId)
  | alreadyFrozen (id : TypeParamId)
  deriving DecidableEq, Repr

/-- The first id that occurs earlier in the list. -/
def firstDuplicate {K : Type} [DecidableEq K] : FxHashSet K → List K → Option K
  | _, [] => none
  | seen, id :: ids => if id ∈ seen then some id else firstDuplicate (insert id seen) ids

/-- The insertion loop of `freeze_type_param_metadata`. -/
def insertFrozen (frozen : LayeredSet TypeParamId) :
    List TypeParamId → Except TypeParamFreezeError Unit × LayeredSet TypeParamId
  | [] => (.ok (), frozen)
  | id :: ids =>
    match frozen.insertLocal id with
    | .error _ => (.error (.alreadyFrozen id), frozen)
    | .ok (_, frozen) => insertFrozen frozen ids

/-- Freeze a declaration batch after prevalidation. -/
def freezeTypeParamMetadata (ids : List TypeParamId) :
    Except TypeParamFreezeError Unit × Store :=
  match firstDuplicate ∅ ids with
  | some id => (.error (.duplicate id), s)
  | none =>
    match ids.find? (fun id => s.frozenTypeParams.contains id) with
    | some id => (.error (.alreadyFrozen id), s)
    | none =>
      match ids.find? (fun id => s.typeParamBelongsToBase id) with
      | some id => (.error (.alreadyFrozen id), s)
      | none =>
        let (result, frozen) := insertFrozen s.frozenTypeParams ids
        (result, { s with frozenTypeParams := frozen })

/-! ## §7 Sealing and forking -/

/-- Apply one fallible column operation to every side table, in declaration order. -/
def mapTables (f : {T : Type} → LayeredVec T → Except String (LayeredVec T))
    (tables : (t : SideTable) → LayeredVec t.Entry) :
    Except String ((t : SideTable) → LayeredVec t.Entry) := do
  let literals ← f (tables .literals)
  let objects ← f (tables .objects)
  let unions ← f (tables .unions)
  let intersections ← f (tables .intersections)
  let functions ← f (tables .functions)
  let typeParams ← f (tables .typeParams)
  let arrays ← f (tables .arrays)
  let tuples ← f (tables .tuples)
  let conditionals ← f (tables .conditionals)
  let instantiations ← f (tables .instantiations)
  let classInstances ← f (tables .classInstances)
  let deferredIndexedAccesses ← f (tables .deferredIndexedAccesses)
  let declaredTypes ← f (tables .declaredTypes)
  let mapped ← f (tables .mapped)
  let templates ← f (tables .templates)
  pure (fun
    | .literals => literals
    | .objects => objects
    | .unions => unions
    | .intersections => intersections
    | .functions => functions
    | .typeParams => typeParams
    | .arrays => arrays
    | .tuples => tuples
    | .conditionals => conditionals
    | .instantiations => instantiations
    | .classInstances => classInstances
    | .deferredIndexedAccesses => deferredIndexedAccesses
    | .declaredTypes => declaredTypes
    | .mapped => mapped
    | .templates => templates)

/-- The ids of the type parameters that have a row. -/
def typeParamIds : FxHashSet TypeParamId :=
  ((List.range (s.tables .typeParams).len).filterMap
    (fun index => ((s.tables .typeParams).get index).map (fun param => param.id))).toFinset

/-- Seal this standalone store as an immutable prefix. -/
def freezeAsBase (s : Store) : Except String Store :=
  if s.tagColumn.isSealed then .error "store is already sealed"
  else do
    let tagColumn ← s.tagColumn.freezeAsBase
    let flagsColumn ← s.flagsColumn.freezeAsBase
    let payloadColumn ← s.payloadColumn.freezeAsBase
    let tables ← mapTables LayeredVec.freezeAsBase s.tables
    let typeParamNames ← s.typeParamNames.freezeAsBase
    let declaredRecipes ← s.declaredRecipes.freezeAsBase
    let typeParamConstraints ← s.typeParamConstraints.freezeAsBase
    let frozenTypeParams ← s.frozenTypeParams.freezeAsBase
    pure
      { semanticGraphIdentity := s.semanticGraphIdentity
        sealedTypeParamIds := s.typeParamIds
        tagColumn, flagsColumn, payloadColumn, tables, typeParamNames, declaredRecipes,
        typeParamConstraints, frozenTypeParams }

/-- Create a private empty suffix over a sealed prefix, with a fresh identity token. -/
def forkDelta (s : Store) : Except String Store := do
  let tagColumn ← s.tagColumn.forkDelta
  let flagsColumn ← s.flagsColumn.forkDelta
  let payloadColumn ← s.payloadColumn.forkDelta
  let tables ← mapTables LayeredVec.forkDelta s.tables
  let typeParamNames ← s.typeParamNames.forkDelta
  let declaredRecipes ← s.declaredRecipes.forkDelta
  let typeParamConstraints ← s.typeParamConstraints.forkDelta
  let frozenTypeParams ← s.frozenTypeParams.forkDelta
  pure
    { semanticGraphIdentity := s.semanticGraphIdentity + 1
      sealedTypeParamIds := s.sealedTypeParamIds
      tagColumn, flagsColumn, payloadColumn, tables, typeParamNames, declaredRecipes,
      typeParamConstraints, frozenTypeParams }

end Store

end Typokat.Types
