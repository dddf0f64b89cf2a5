import Typokat.Relate.TupleShape
import Typokat.Types.Interner

/-!
# The Shape of a Parameter List (`typokat-relate/src/relate/relation/objects.rs`)

The parameters of a function are flattened like the elements of a tuple: a rest parameter that
is a tuple is spliced in.  Unlike there a rest of any other type is kept as one variadic slot.
-/

namespace Typokat.Relate

open Types

/-- `ParamSlot`. -/
structure ParamSlot where
  ty : TypeId
  acceptsUndefined : Bool := false
  deriving DecidableEq, Repr

/-- `ParamShape`. -/
structure ParamShape where
  prefixSlots : List ParamSlot := []
  variadic : Option ParamSlot := none
  suffix : List ParamSlot := []
  nonArrayRest : Bool := false
  deriving DecidableEq, Repr

/-- `ParamTail`. -/
structure ParamTail where
  prefixSlots : List ParamSlot
  variadic : Option ParamSlot
  suffix : List ParamSlot

/-- `ParamTailSlot`. -/
structure ParamTailSlot where
  slot : ParamSlot
  required : Bool
  rest : Bool

/-! ## §1 Counting slots -/

/-- The shortest argument list: a suffix is reached over the whole prefix. -/
def minSlots (prefixSlots suffix : List ParamSlot) : Nat :=
  if !suffix.isEmpty then prefixSlots.length + suffix.length
  else (prefixSlots.filter (fun slot => !slot.acceptsUndefined)).length

namespace ParamShape

variable (shape : ParamShape)

def minLen : Nat := minSlots shape.prefixSlots shape.suffix

def parameterCount : Nat :=
  shape.prefixSlots.length + if shape.variadic.isSome then 1 else 0

def hasNonArrayRest : Bool := shape.nonArrayRest

def positionalSlot (index : Nat) : Option ParamSlot :=
  (shape.prefixSlots[index]?).or shape.variadic

def tail (start : Nat) : ParamTail :=
  ⟨shape.prefixSlots.drop start, shape.variadic, shape.suffix⟩

end ParamShape

namespace ParamTail

variable (tail : ParamTail)

def minLen : Nat := minSlots tail.prefixSlots tail.suffix

def maxLen : Option Nat :=
  if tail.variadic.isSome then none else some (tail.prefixSlots.length + tail.suffix.length)

def slotCount : Nat :=
  tail.prefixSlots.length + (if tail.variadic.isSome then 1 else 0) + tail.suffix.length

def startCount : Nat := tail.prefixSlots.length

def endCount : Nat := tail.suffix.length

/-- The slot at an index: first the prefix, then the variadic slot, then the suffix. -/
def slot (tail : ParamTail) (index : Nat) : Option ParamTailSlot :=
  match tail.prefixSlots[index]? with
  | some slot => some ⟨slot, !tail.suffix.isEmpty || !slot.acceptsUndefined, false⟩
  | none =>
    let restIndex := tail.prefixSlots.length
    match tail.variadic with
    | some slot =>
      if index = restIndex then some ⟨slot, false, true⟩
      else if index < restIndex + 1 then none
      else (tail.suffix[index - (restIndex + 1)]?).map (fun slot => ⟨slot, true, false⟩)
    | none =>
      if index < restIndex then none
      else (tail.suffix[index - restIndex]?).map (fun slot => ⟨slot, true, false⟩)

end ParamTail

/-! ## §2 Flattening -/

section Flatten

variable (store : Store) (wk : WellKnown)

/-- `rest_param_shape`, with `tuple_param_shape` in it.  The outer `none` says that the nesting is
    deeper than `fuel`, the inner one is the malformed position of a rest. -/
def restParamShape : Nat → TypeId → Option (Option ParamShape)
  | 0, _ => none
  | fuel + 1, ty =>
    let ty := (store.readonlyOperand ty).getD ty
    if ty = wk.any ∨ ty = wk.never then some (some { variadic := some ⟨ty, false⟩ })
    else
      match store.arrayType ty with
      | some element => some (some { variadic := some ⟨element, false⟩ })
      | none =>
        match store.tupleType ty with
        | none => some (some { variadic := some ⟨ty, false⟩, nonArrayRest := true })
        | some tuple =>
          match tuple.rest with
          | none => some (some { prefixSlots := tuple.elements.map (fun ty => ⟨ty, false⟩) })
          | some rest =>
            if rest.position > tuple.elements.length then some none
            else
              let before := (tuple.elements.take rest.position).map (fun ty => ParamSlot.mk ty false)
              let behind := (tuple.elements.drop rest.position).map (fun ty => ParamSlot.mk ty false)
              (restParamShape fuel rest.ty).map (fun restShape => restShape.map (fun restShape =>
                let suffix := restShape.suffix ++ behind
                if restShape.variadic.isNone then
                  { prefixSlots := before ++ restShape.prefixSlots ++ suffix }
                else
                  { prefixSlots := before ++ restShape.prefixSlots
                    variadic := restShape.variadic
                    suffix := suffix
                    -- a rest tuple without a suffix collapses to its array
                    nonArrayRest := restShape.nonArrayRest || !suffix.isEmpty }))

/-- `function_param_shape`. -/
def functionParamShape (fuel : Nat) (function : FunctionType) : Option (Option ParamShape) :=
  let fixed := function.fixedParams.map (fun param =>
    ParamSlot.mk param.ty (param.optional || param.hasDefault))
  match function.restParam with
  | none => some (some { prefixSlots := fixed })
  | some rest =>
    (restParamShape store wk fuel rest.ty).map (fun restShape => restShape.map (fun restShape =>
      { restShape with prefixSlots := fixed ++ restShape.prefixSlots }))

/-- Whether the rests of a tuple nest at most `fuel` deep. -/
def restsEnd : Nat → TupleType → Bool
  | 0, _ => false
  | fuel + 1, tuple =>
    match tuple.rest with
    | none => true
    | some rest =>
      let ty := (store.readonlyOperand rest.ty).getD rest.ty
      (store.arrayType ty).isSome || (store.tupleType ty).all (restsEnd fuel)

end Flatten

end Typokat.Relate
