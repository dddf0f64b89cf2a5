import Typokat.Types.Store

/-!
# Structural Keys (`typokat-types/src/types/hash.rs`)

The key the interner deduplicates on.  `structural_hash` itself is an arbitrary function
of the key wherever it is used: nothing depends on how it spreads.
-/

namespace Typokat.Types

/-- The pre-intern structural-hash key. -/
inductive StructuralKey
  | intrinsic (kind : IntrinsicKind)
  | literal (value : LiteralValue)
  | object (properties : List PropertyType) (stringIndex numberIndex : Option TypeId)
      (callSignatures constructSignatures : List TypeId)
  | function (typeParams : List GenericTypeParam) (receiver : Option TypeId)
      (params : List ParameterType) (ret : TypeId)
  | union (members : List TypeId)
  | intersection (members : List TypeId)
  | typeParam (id : TypeParamId)
  | array (element : TypeId)
  | tuple (tuple : TupleType)
  | readonly (operand : TypeId)
  | conditional (check extendsTy trueBranch falseBranch : TypeId) (inferCount : Nat)
      (distributive poisoned : Bool)
  | instantiation (base : TypeId) (args : List (TypeParamId × TypeId))
  | classInstance (classId : ClassId) (args : List TypeId)
  | infer (index : Nat)
  | mapped (homomorphic : Bool) (keySource valueTemplate : TypeId)
      (modifiersSource : Option TypeId) (optionalModifier readonlyModifier : ModifierOp)
  | mappedValue
  | template (texts : List String) (holes : List TypeId)
  | keyof (operand : TypeId)
  | deferredIndexedAccess (object index : TypeId)
  | declared (recipe : DeclaredRecipeId) (mapper : List (TypeParamId × TypeId))
  deriving DecidableEq, Repr

def ObjectType.key (object : ObjectType) : StructuralKey :=
  .object object.properties object.stringIndex object.numberIndex object.callSignatures
    object.constructSignatures

def FunctionType.key (function : FunctionType) : StructuralKey :=
  .function function.typeParams function.receiver function.params function.ret

def ConditionalType.key (conditional : ConditionalType) : StructuralKey :=
  .conditional conditional.check conditional.extendsTy conditional.trueBranch
    conditional.falseBranch conditional.inferCount conditional.distributive conditional.poisoned

def MappedType.key (mapped : MappedType) : StructuralKey :=
  .mapped mapped.homomorphic mapped.keySource mapped.valueTemplate mapped.modifiersSource
    mapped.optionalModifier mapped.readonlyModifier

/-- The structural identity of a row: everything but a type parameter's name. -/
def Row.key : Row → StructuralKey
  | .intrinsic kind => .intrinsic kind
  | .literal value => .literal value
  | .object body => body.key
  | .union members => .union members
  | .intersection members => .intersection members
  | .function body => body.key
  | .typeParam param => .typeParam param.id
  | .array element => .array element
  | .tuple body => .tuple body
  | .readonly operand => .readonly operand
  | .conditional body => body.key
  | .instantiation body => .instantiation body.base body.args
  | .classInstance body => .classInstance body.classId body.args
  | .infer index => .infer index
  | .mapped body => body.key
  | .mappedValue => .mappedValue
  | .template body => .template body.texts body.holes
  | .keyof operand => .keyof operand
  | .deferredIndexedAccess body => .deferredIndexedAccess body.object body.index
  | .declared body => .declared body.recipe body.mapper

theorem ObjectType.key_injective : Function.Injective ObjectType.key := by
  rintro ⟨⟩ ⟨⟩ h
  simpa [ObjectType.key] using h

theorem FunctionType.key_injective : Function.Injective FunctionType.key := by
  rintro ⟨⟩ ⟨⟩ h
  simpa [FunctionType.key] using h

theorem ConditionalType.key_injective : Function.Injective ConditionalType.key := by
  rintro ⟨⟩ ⟨⟩ h
  simpa [ConditionalType.key] using h

theorem MappedType.key_injective : Function.Injective MappedType.key := by
  rintro ⟨⟩ ⟨⟩ h
  simpa [MappedType.key] using h

end Typokat.Types
