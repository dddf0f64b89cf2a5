import Typokat.Lib.Attempt
import Typokat.Relate.Templates

/-!
# Excess Properties (`typokat-check/src/check/checker/assignment.rs`)

A fresh object literal may only name properties that its target knows.  The check walks the
literals of an expression along the target: an object type, an array or a tuple.  An intersection
is checked against the keys of all its members at once, by a second walker that keeps the list of
the members that contribute to the value at hand.

## Main Definitions

- `collectExcessProperties` : the check against one target
- `checkMembersObject` : the check against a list of contributing members
- `prepareTargets` : the pass before it, that resolves the declared targets

## Main Results

-/

namespace Typokat.Check.Excess

open Types
open Lib (Attempt)
open Relate (NumberText isNumericPropertyName)

/-! ## §1 Expressions -/

/-- A range of the source text. -/
structure Span where
  start : Nat
  stop : Nat
  deriving DecidableEq, Repr

inductive LogicalOperator
  | or | and | coalesce
  deriving DecidableEq, Repr

mutual

/-- The expressions that the check looks into; the condition of a ternary is left out. -/
inductive Expression
  | parenthesized (expression : Expression)
  | object (properties : List ObjectMember)
  | array (elements : List ArrayElement)
  | conditional (consequent alternate : Expression)
  | logical (operator : LogicalOperator) (left right : Expression)
  /-- an expression that has no fresh literals for the target -/
  | other

/-- A member of an object literal.  `name` is the static name of the key, `span` the key's. -/
inductive ObjectMember
  | property (name : Option String) (span : Span) (value : Expression)
  | spread

inductive ArrayElement
  | expression (expression : Expression)
  | spread
  | elision

end

/-- `as_expression`. -/
def ArrayElement.asExpression : ArrayElement → Option Expression
  | .expression value => some value
  | .spread | .elision => none

/-- `Diagnostic::excess_property`; the rendered target joins its parts with ` & `. -/
structure ExcessProperty where
  span : Span
  name : String
  target : List TypeId
  deriving DecidableEq, Repr

/-- The message of `TK2353`. -/
def ExcessProperty.message (renderType : TypeId → String) (diagnostic : ExcessProperty) : String :=
  "Object literal may only specify known properties, and '" ++ diagnostic.name
    ++ "' does not exist in type '" ++ " & ".intercalate (diagnostic.target.map renderType) ++ "'."

/-! ## §2 Targets -/

section Targets

variable (text : NumberText) (store : Store)

/-- `is_contextual_literal_shape`, and `is_excess_literal_shape` with the same tags. -/
def isContextualLiteralShape (ty : TypeId) : Bool :=
  match store.tag ty with
  | some .object | some .array | some .tuple => true
  | _ => false

/-- The loop of `contextual_literal_target` over the members of a union: the only member with a
    shape, if all others are nullish. -/
def onlyShape (ty : TypeId) : List TypeId → Option TypeId → TypeId
  | [], shape => shape.getD ty
  | member :: rest, shape =>
    let member := (store.readonlyOperand member).getD member
    if isContextualLiteralShape store member then
      if shape.isSome then ty else onlyShape ty rest (some member)
    else
      match store.intrinsicKind member with
      | some .null | some .undefined => onlyShape ty rest shape
      | _ => ty

/-- `contextual_literal_target`; `excess_recursion_target` is the same. -/
def contextualLiteralTarget (ty : TypeId) : TypeId :=
  let ofUnion : TypeId :=
    match store.unionMembers ty with
    | none => ty
    | some members => onlyShape store ty members none
  match store.readonlyOperand ty with
  | some operand => if isContextualLiteralShape store operand then operand else ofUnion
  | none => ofUnion

/-- `excess_recursion_target`. -/
def excessRecursionTarget (ty : TypeId) : TypeId := contextualLiteralTarget store ty

/-- An index signature that accepts a key that is not named: a numeric key prefers the number
    index. -/
def indexValue (object : ObjectType) (name : String) : Option TypeId :=
  if isNumericPropertyName text name then object.numberIndex.or object.stringIndex
  else object.stringIndex

/-- Where an object type sends the value of a key. -/
def objectTarget (object : ObjectType) (name : String) : Option TypeId :=
  match object.property name with
  | some property => some (excessRecursionTarget store property.ty)
  | none => indexValue text object name

/-- The types that the members which name a key give to it. -/
def contributors (members : List TypeId) (name : String) : List TypeId :=
  members.filterMap (fun member => ((store.objectType member).bind (fun object =>
    object.property name)).map (fun property => property.ty))

/-- The index signature of the first member that has one. -/
def memberIndexValue (members : List TypeId) (name : String) : Option TypeId :=
  members.findSome? (fun member => (store.objectType member).bind (fun object =>
    indexValue text object name))

/-- The empty object type, which is open. -/
def isOpenObject (object : ObjectType) : Bool :=
  object.properties.isEmpty && object.stringIndex.isNone && object.numberIndex.isNone
    && object.callSignatures.isEmpty && object.constructSignatures.isEmpty

end Targets

/-! ## §3 The walkers -/

section Walkers

variable (text : NumberText) (store : Store) (normalized : FxHashMap TypeId TypeId)

/-- The target that an expression is checked against. -/
def walkTarget (ty : TypeId) : TypeId :=
  contextualLiteralTarget store ((normalized.lookup ty).getD ty)

mutual

/-- `collect_excess_properties`. -/
def collectExcessProperties : Expression → TypeId → List ExcessProperty
  | .parenthesized expression, ty =>
    collectExcessProperties expression (walkTarget store normalized ty)
  | .object properties, ty =>
    let ty := walkTarget store normalized ty
    if store.tag ty = some .intersection then
      -- `check_intersection_object_excess`
      match store.intersectionMembers ty with
      | none => []
      | some members => checkMembersObject properties members
    else
      -- `check_object_excess_properties`
      match store.objectType ty with
      | none => []
      | some object => if isOpenObject object then [] else checkObject properties ty object
  | .array elements, ty =>
    -- `check_array_excess_properties`
    let ty := walkTarget store normalized ty
    match store.tupleType ty with
    | some tuple => checkTupleElements elements 0 tuple
    | none =>
      match store.arrayType ty with
      | some element => checkArrayElements elements (excessRecursionTarget store element)
      | none => []
  | .conditional consequent alternate, ty =>
    let ty := walkTarget store normalized ty
    collectExcessProperties consequent ty ++ collectExcessProperties alternate ty
  | .logical operator left right, ty =>
    let ty := walkTarget store normalized ty
    (if operator ≠ .and then collectExcessProperties left ty else [])
      ++ collectExcessProperties right ty
  | .other, _ => []

/-- The loop of `check_object_excess_properties`. -/
def checkObject : List ObjectMember → TypeId → ObjectType → List ExcessProperty
  | [], _, _ => []
  | .spread :: rest, ty, object => checkObject rest ty object
  | .property none _ _ :: rest, ty, object => checkObject rest ty object
  | .property (some name) span value :: rest, ty, object =>
    (match objectTarget text store object name with
    | some target => collectExcessProperties value target
    | none => [⟨span, name, [ty]⟩]) ++ checkObject rest ty object

/-- `check_object_excess_against_members`. -/
def checkMembersObject : List ObjectMember → List TypeId → List ExcessProperty
  | [], _ => []
  | .spread :: rest, members => checkMembersObject rest members
  | .property none _ _ :: rest, members => checkMembersObject rest members
  | .property (some name) span value :: rest, members =>
    (match contributors store members name with
    | [] =>
      match memberIndexValue text store members name with
      | some target => collectExcessProperties value target
      | none => [⟨span, name, members⟩]
    | [single] => collectExcessProperties value single
    | first :: second :: others => checkAgainstMany value (first :: second :: others))
      ++ checkMembersObject rest members

/-- `check_excess_against_members` with more than one member. -/
def checkAgainstMany : Expression → List TypeId → List ExcessProperty
  | .parenthesized expression, members => checkAgainstMany expression members
  | .object properties, members => checkMembersObject properties members
  | .array _, _ | .conditional _ _, _ | .logical _ _ _, _ | .other, _ => []

/-- The loop of `check_array_excess_properties` over a tuple, from an index on. -/
def checkTupleElements : List ArrayElement → Nat → TupleType → List ExcessProperty
  | [], _, _ => []
  | .spread :: rest, index, tuple => checkTupleElements rest (index + 1) tuple
  | .elision :: rest, index, tuple => checkTupleElements rest (index + 1) tuple
  | .expression expression :: rest, index, tuple =>
    (match tuple.elements[index]? with
    | some target => collectExcessProperties expression (excessRecursionTarget store target)
    | none => []) ++ checkTupleElements rest (index + 1) tuple

/-- The loop over the elements of an array, all with one target. -/
def checkArrayElements : List ArrayElement → TypeId → List ExcessProperty
  | [], _ => []
  | .spread :: rest, target => checkArrayElements rest target
  | .elision :: rest, target => checkArrayElements rest target
  | .expression expression :: rest, target =>
    collectExcessProperties expression target ++ checkArrayElements rest target

end

end Walkers

/-! ## §4 The preparation -/

section Preparation

variable {S Exhaustion : Type}

/-- What the preparation uses of the pass: its store, and the evaluation of a declared type. -/
structure PreparationPass (S Exhaustion : Type) where
  store : S → Store
  evaluateType : TypeId → S → Except Exhaustion TypeId × S

/-- An attempt of the preparation.  It stops when types nest deeper than the fuel. -/
abbrev Preparation (S Exhaustion A : Type) :=
  Attempt (S × FxHashMap TypeId TypeId) Unit Exhaustion A

variable (text : NumberText) (pass : PreparationPass S Exhaustion)

/-- `self.interner.store()`. -/
def currentStore : Preparation S Exhaustion Store :=
  .step (fun state => (.ok (pass.store state.1), state))

/-- `self.evaluate_type(..)`. -/
def evaluateType (ty : TypeId) : Preparation S Exhaustion TypeId :=
  .step (fun state =>
    ((pass.evaluateType ty state.1).1, ((pass.evaluateType ty state.1).2, state.2)))

/-- Remember what a target was resolved to. -/
def recordNormalized (ty demanded : TypeId) : Preparation S Exhaustion Unit :=
  .step (fun state => (.ok (),
    if demanded ≠ ty then (state.1, (state.2.insert ty demanded).insert demanded demanded)
    else state))

/-- The loop of `demand_declared_literal_shape` over the members of a union. -/
def demandOnlyShape (recurse : TypeId → Preparation S Exhaustion TypeId) (ty : TypeId) :
    List TypeId → Option TypeId → Preparation S Exhaustion TypeId
  | [], shape => pure (shape.getD ty)
  | member :: rest, shape => do
    let store ← currentStore pass
    if store.intrinsicKind member = some .undefined then demandOnlyShape recurse ty rest shape
    else if shape.isSome then pure ty
    else
      let member ← recurse member
      let store ← currentStore pass
      if !isContextualLiteralShape store member then pure ty
      else demandOnlyShape recurse ty rest (some member)

/-- `demand_declared_literal_shape`. -/
def demandDeclaredLiteralShape : Nat → TypeId → Preparation S Exhaustion TypeId
  | 0, _ => ⟨fun _ => .error ()⟩
  | fuel + 1, ty => do
    let store ← currentStore pass
    let demanded ←
      match store.tag ty with
      | some .declared => evaluateType pass ty
      | some .readonly =>
        match store.readonlyOperand ty with
        | none => pure ty
        | some operand => do
          let operand ← demandDeclaredLiteralShape fuel operand
          let store ← currentStore pass
          pure (if isContextualLiteralShape store operand then operand else ty)
      | some .union =>
        match store.unionMembers ty with
        | none => pure ty
        | some members =>
          demandOnlyShape pass (demandDeclaredLiteralShape fuel) ty members none
      | _ => pure ty
    recordNormalized ty demanded
    pure demanded

/-- The children that an array literal has for a target, each with the type that it is prepared
    for. -/
def arrayChildren (store : Store) (target : TypeId) (elements : List ArrayElement) :
    List (Expression × TypeId) :=
  match store.tupleType target with
  | some tuple =>
    elements.zipIdx.filterMap (fun entry => entry.1.asExpression.bind (fun expression =>
      (tuple.elements[entry.2]?).map (fun child => (expression, child))))
  | none =>
    match store.arrayType target with
    | some element =>
      elements.filterMap (fun entry => entry.asExpression.map (fun expression =>
        (expression, element)))
    | none => []

variable (fuel : Nat)

/-- Resolve a target and go on with it. -/
def withTarget (ty : TypeId) (next : Store → TypeId → Preparation S Exhaustion Unit) :
    Preparation S Exhaustion Unit := do
  let demanded ← demandDeclaredLiteralShape pass fuel ty
  let store ← currentStore pass
  next store (contextualLiteralTarget store demanded)

mutual

/-- `prepare_declared_excess_property_targets`. -/
def prepareTargets : Expression → TypeId → Preparation S Exhaustion Unit
  | .parenthesized expression, ty =>
    withTarget pass fuel ty (fun _ target => prepareTargets expression target)
  | .object properties, ty =>
    withTarget pass fuel ty (fun store target =>
      match store.objectType target with
      | none => pure ()
      | some object => prepareObject properties object)
  | .array elements, ty =>
    withTarget pass fuel ty (fun store target =>
      match store.tupleType target with
      | some tuple => prepareTupleElements elements 0 tuple
      | none =>
        match store.arrayType target with
        | some element => prepareArrayElements elements element
        | none => pure ())
  | .conditional consequent alternate, ty =>
    withTarget pass fuel ty (fun _ target => do
      prepareTargets consequent target
      prepareTargets alternate target)
  | .logical operator left right, ty =>
    withTarget pass fuel ty (fun _ target => do
      if operator ≠ .and then prepareTargets left target else pure ()
      prepareTargets right target)
  | .other, ty => withTarget pass fuel ty (fun _ _ => pure ())

/-- The properties of an object literal. -/
def prepareObject : List ObjectMember → ObjectType → Preparation S Exhaustion Unit
  | [], _ => pure ()
  | .spread :: rest, object => prepareObject rest object
  | .property none _ _ :: rest, object => prepareObject rest object
  | .property (some name) _ value :: rest, object => do
    match ((object.property name).map (fun property => property.ty)).or
        (indexValue text object name) with
    | some child => prepareTargets value child
    | none => pure ()
    prepareObject rest object

/-- The elements of an array literal for a tuple, from an index on. -/
def prepareTupleElements : List ArrayElement → Nat → TupleType → Preparation S Exhaustion Unit
  | [], _, _ => pure ()
  | .spread :: rest, index, tuple => prepareTupleElements rest (index + 1) tuple
  | .elision :: rest, index, tuple => prepareTupleElements rest (index + 1) tuple
  | .expression expression :: rest, index, tuple =>
    match tuple.elements[index]? with
    | some child => do
      prepareTargets expression child
      prepareTupleElements rest (index + 1) tuple
    | none => prepareTupleElements rest (index + 1) tuple

/-- The elements of an array literal for an array. -/
def prepareArrayElements : List ArrayElement → TypeId → Preparation S Exhaustion Unit
  | [], _ => pure ()
  | .spread :: rest, child => prepareArrayElements rest child
  | .elision :: rest, child => prepareArrayElements rest child
  | .expression expression :: rest, child => do
    prepareTargets expression child
    prepareArrayElements rest child

end

end Preparation

end Typokat.Check.Excess
