import Typokat.Types.Substitute

/-!
# Interner Histories

The public operations of the interner as data, one step of each, and runs of whole
histories.  A history goes on with the fork after `fork_delta`; a panic ends it.
-/

namespace Typokat.Types

/-- The operations of the interner. -/
inductive InternerOp
  | internIntrinsic (kind : IntrinsicKind)
  | internLiteral (value : LiteralValue)
  | internTypeParam (id : TypeParamId) (name : String)
  | internInfer (index : Nat)
  | internObject (object : ObjectType)
  | internFunction (function : FunctionType)
  | internArray (element : TypeId)
  | internTuple (elements : List TypeId)
  | internTupleType (tuple : TupleType)
  | internReadonly (operand : TypeId)
  | internConditional (conditional : ConditionalType)
  | internInstantiation (base : TypeId) (args : List (TypeParamId × TypeId))
  | internClassInstance (classId : ClassId) (args : List TypeId)
  | internDeferredIndexedAccess (object index : TypeId)
  | internMapped (mapped : MappedType)
  | internKeyof (operand : TypeId)
  | internTemplate (template : TemplateType)
  | internMappedValue
  | union (members : List TypeId)
  | intersection (members : List TypeId)
  | internDeclaredRecipe (node : DeclaredRecipeNode)
  | internDeclared (recipe : DeclaredRecipeId) (mapper : List (TypeParamId × TypeId))
  | reserveObject
  | reserveConditional
  | reserveMapped
  | fillReservedTypeBatch (fills : List ReservedTypeFill)
  | fillObject (id : TypeId) (object : ObjectType)
  | fillConditional (id : TypeId) (conditional : ConditionalType)
  | fillMapped (id : TypeId) (mapped : MappedType)
  | abandonReservedObject (id : TypeId)
  | poisonReservedConditional (id : TypeId)
  | poisonReservedMapped (id : TypeId)
  | promote (id : TypeId)
  | setTypeParamConstraint (id : TypeParamId) (constraint : TypeId)
  | removeTypeParamConstraint (id : TypeParamId)
  | freezeTypeParamMetadata (ids : List TypeParamId)
  | substitute (ty : TypeId) (map : FxHashMap TypeParamId TypeId)
  | freezeAsBase
  | forkDelta

/-- What an operation returns. -/
inductive OpResult
  | id (ty : TypeId)
  | recipe (id : DeclaredRecipeId)
  | unit
  | flag (value : Bool)
  | fill (result : Except ReservedTypeFillError Unit)
  | promotion (result : Except ReservedObjectPromotionError TypeId)
  | metadata (result : Except Store.TypeParamFreezeError Unit)
  | message (result : Except String Unit)

namespace OpResult

/-- The result of an operation that returns a type id. -/
def ofId (result : TypeId × Interner) : OpResult × Interner := (.id result.1, result.2)

def ofRecipe (result : DeclaredRecipeId × Interner) : OpResult × Interner :=
  (.recipe result.1, result.2)

def ofFill (result : Except ReservedTypeFillError Unit × Interner) : OpResult × Interner :=
  (.fill result.1, result.2)

def ofUnit (result : Interner) : OpResult × Interner := (.unit, result)

end OpResult

variable (structuralHash : StructuralKey → Nat)

/-- One operation; `fuel` bounds the recursion of a substitution. -/
def InternerOp.step (fuel : Nat) (interner : Interner) : InternerOp → Option (OpResult × Interner)
  | .internIntrinsic kind => some (OpResult.ofId (interner.internIntrinsic structuralHash kind))
  | .internLiteral value => some (OpResult.ofId (interner.internLiteral structuralHash value))
  | .internTypeParam id name => some (OpResult.ofId (interner.internTypeParam structuralHash id name))
  | .internInfer index => some (OpResult.ofId (interner.internInfer structuralHash index))
  | .internObject body => some (OpResult.ofId (interner.internObject structuralHash body))
  | .internFunction body => some (OpResult.ofId (interner.internFunction structuralHash body))
  | .internArray element => some (OpResult.ofId (interner.internArray structuralHash element))
  | .internTuple elements => some (OpResult.ofId (interner.internTuple structuralHash elements))
  | .internTupleType body => some (OpResult.ofId (interner.internTupleType structuralHash body))
  | .internReadonly operand => some (OpResult.ofId (interner.internReadonly structuralHash operand))
  | .internConditional body => some (OpResult.ofId (interner.internConditional structuralHash body))
  | .internInstantiation base args =>
    some (OpResult.ofId (interner.internInstantiation structuralHash base args))
  | .internClassInstance classId args =>
    some (OpResult.ofId (interner.internClassInstance structuralHash classId args))
  | .internDeferredIndexedAccess object index =>
    some (OpResult.ofId (interner.internDeferredIndexedAccess structuralHash object index))
  | .internMapped body => some (OpResult.ofId (interner.internMapped structuralHash body))
  | .internKeyof operand => some (OpResult.ofId (interner.internKeyof structuralHash operand))
  | .internTemplate body => some (OpResult.ofId (interner.internTemplate structuralHash body))
  | .internMappedValue => some (OpResult.ofId (interner.internMappedValue structuralHash))
  | .union members => (interner.union structuralHash members).map OpResult.ofId
  | .intersection members => (interner.intersection structuralHash members).map OpResult.ofId
  | .internDeclaredRecipe node => (interner.internDeclaredRecipe node).map OpResult.ofRecipe
  | .internDeclared recipe mapper =>
    (interner.internDeclared structuralHash recipe mapper).map OpResult.ofId
  | .reserveObject => some (OpResult.ofId interner.reserveObject)
  | .reserveConditional => some (OpResult.ofId interner.reserveConditional)
  | .reserveMapped => some (OpResult.ofId interner.reserveMapped)
  | .fillReservedTypeBatch fills => (interner.fillReservedTypeBatch fills).map OpResult.ofFill
  | .fillObject id body => (interner.fillObject id body).map OpResult.ofUnit
  | .fillConditional id body => (interner.fillConditional id body).map OpResult.ofUnit
  | .fillMapped id body => (interner.fillMapped id body).map OpResult.ofUnit
  | .abandonReservedObject id => (interner.abandonReservedObject id).map OpResult.ofFill
  | .poisonReservedConditional id => (interner.poisonReservedConditional id).map OpResult.ofFill
  | .poisonReservedMapped id => (interner.poisonReservedMapped id).map OpResult.ofFill
  | .promote id =>
    let (result, interner) :=
      interner.promoteCallerCertifiedAcyclicReservedObject structuralHash id
    some (.promotion result, interner)
  | .setTypeParamConstraint id constraint =>
    let (recorded, interner) := interner.setTypeParamConstraint id constraint
    some (.flag recorded, interner)
  | .removeTypeParamConstraint id =>
    let (erased, interner) := interner.removeTypeParamConstraint id
    some (.flag erased, interner)
  | .freezeTypeParamMetadata ids =>
    let (result, interner) := interner.freezeTypeParamMetadata ids
    some (.metadata result, interner)
  | .substitute ty map =>
      (Typokat.Types.substitute structuralHash fuel interner ty map).map OpResult.ofId
  | .freezeAsBase =>
    let (result, interner) := interner.freezeAsBase
    some (.message result, interner)
  | .forkDelta =>
    match interner.forkDelta with
    | .ok fork => some (.message (.ok ()), fork)
    | .error error => some (.message (.error error), interner)

/-- A whole history with the results it returned. -/
def runHistory (fuel : Nat) : List InternerOp → Interner → Option (List OpResult × Interner)
  | [], interner => some ([], interner)
  | op :: ops, interner => do
    let (result, interner) ← op.step structuralHash fuel interner
    let (results, interner) ← runHistory fuel ops interner
    some (result :: results, interner)

/-- **The states a history can reach** from a fresh interner. -/
def Interner.Reachable (interner : Interner) : Prop :=
  ∃ fuel history results,
    runHistory structuralHash fuel history (Interner.withIntrinsics structuralHash)
      = some (results, interner)

/-- What holds of the result of a run `r`, when the run decides it. -/
theorem exists_of_run {A : Type} {r : Option A} {P : A → Prop} [DecidablePred P]
    (h : r.map (fun reached => decide (P reached)) = some true) :
    ∃ reached, r = some reached ∧ P reached := by
  obtain ⟨reached, hrun, hP⟩ := Option.map_eq_some_iff.mp h
  exact ⟨reached, hrun, of_decide_eq_true hP⟩

end Typokat.Types
