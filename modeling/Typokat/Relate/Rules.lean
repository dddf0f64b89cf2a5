import Typokat.Lib.Inquiry
import Typokat.Relate.Contexts
import Typokat.Relate.ParamShape
import Typokat.Relate.Reason
import Typokat.Relate.Templates
import Typokat.Types.FreeParams

/-!
# The Structural Rules (`typokat-relate/src/relate/relation/`)

`relate_uncached` with the rules that it dispatches to.  A rule asks the engine about other pairs
of types and goes on with the answers, so it is a tree of questions; the engine around it finds
the answers and keeps its cache and its cycle stack.

There is no normalization overlay here (`Relater::new`): nothing is normalized or demanded, and no
type has an apparent surface.

## Main Definitions

- `Rule` : a rule
- `relateUncached` : the rule for a pair
-/

namespace Typokat.Relate

open Types
open Lib (Inquiry)

/-! ## §1 Rules as questions -/

/-- A call of `relate` from a rule. -/
structure Question where
  src : TypeId
  tgt : TypeId
  /-- `false` is passed as `want_reason`, and not the mode of the frame -/
  probe : Bool := false
  /-- the assumptions of the call are only merged when it succeeds -/
  isolated : Bool := false
  deriving DecidableEq, Repr

/-- A rule of the relation. -/
abbrev Rule := Inquiry Question BinderRelationContext Relation

namespace Rule

/-- `Relation::Yes`. -/
def yes : Rule := .done .yes

/-- `Relation::No` with a reason. -/
def no (reason : Reason) : Rule := .done (.no (.of reason))

/-- `ReasonChain::leaf`. -/
def leaf (src tgt : TypeId) : Rule := .done (.no (.leaf src tgt))

/-- `self.relate(src, tgt, kind, assumed, self.want_reason)`. -/
def relate (src tgt : TypeId) : Rule := .ask { src := src, tgt := tgt } .done

/-- `self.relate(src, tgt, kind, assumed, false)`. -/
def probe (src tgt : TypeId) : Rule := .ask { src := src, tgt := tgt, probe := true } .done

/-- Go on after a success; a failure is returned with its reason wrapped. -/
def andThen (rule : Rule) (wrap : ReasonChain → ReasonChain) (next : Rule) : Rule :=
  rule.bind (fun
    | .yes => next
    | .no child => .done (.no (wrap child)))

/-- Return a success; go on after a failure. -/
def orElse (rule : Rule) (next : ReasonChain → Rule) : Rule :=
  rule.bind (fun
    | .yes => yes
    | .no child => next child)

/-- Every element passes, in order. -/
def all {A : Type} (xs : List A) (check : A → Rule) (wrap : A → ReasonChain → ReasonChain)
    (next : Rule) : Rule :=
  xs.foldr (fun x rest => (check x).andThen (wrap x) rest) next

/-- Some element passes; the first one decides. -/
def any {A : Type} (xs : List A) (check : A → Rule) (otherwise : Rule) : Rule :=
  xs.foldr (fun x rest => (check x).orElse (fun _ => rest)) otherwise

/-- `probe_without_reason`. -/
def withoutReason (rule : Rule) : Rule :=
  rule.mapQuestions (fun question => { question with probe := true })

end Rule

section Rules

variable (text : NumberText) (store : Store) (wk : WellKnown)

/-! ## §2 Unions and conditionals -/

/-- The cursor of `relate_union_source` over the members of a target union: whether the member is
    one of them, and the members from the cursor on. -/
def exactTarget (member : TypeId) : List TypeId → Bool × List TypeId
  | [] => (false, [])
  | target :: rest =>
    if target < member then exactTarget member rest else (target == member, target :: rest)

/-- The loop of `relate_union_source`. -/
def relateUnionMembers (src tgt : TypeId) : List TypeId → List TypeId → Rule
  | [], _ => Rule.yes
  | member :: members, targets =>
    let (exact, targets) := exactTarget member targets
    (if exact then Rule.relate member member else Rule.relate member tgt).andThen
      (fun child => .of (.unionSourceMember member src tgt child.head))
      (relateUnionMembers src tgt members targets)

variable (src tgt : TypeId)

/-- `relate_union_source`. -/
def relateUnionSource : Rule :=
  match store.unionMembers src with
  | none => Rule.leaf src tgt
  | some members => relateUnionMembers src tgt members ((store.unionMembers tgt).getD [])

/-- `relate_union_target`. -/
def relateUnionTarget : Rule :=
  match store.unionMembers tgt with
  | none => Rule.leaf src tgt
  | some members =>
    Rule.any members
      (fun member => .ask { src := src, tgt := member, probe := true, isolated := true } .done)
      (Rule.no (.noUnionMember src tgt))

/-- `relate_conditional_source`. -/
def relateConditionalSource : Rule :=
  match store.conditionalType src with
  | none => Rule.leaf src tgt
  | some cond =>
    if containsInfer store cond.trueBranch || containsInfer store cond.falseBranch then
      Rule.leaf src tgt
    else
      (Rule.relate cond.trueBranch tgt).andThen id (Rule.relate cond.falseBranch tgt)

/-! ## §3 Objects -/

/-- `nominal_origin_ok`. -/
def nominalOriginOk (tgt src : PropertyType) : Bool :=
  match tgt.visibility with
  | .publicAccess => src.visibility == .publicAccess
  | .privateAccess | .protectedAccess =>
    src.visibility == tgt.visibility && src.declaringClass == tgt.declaringClass

/-- The source property of a key, and the properties behind the cursor then. -/
def seekProperty (key : PropertyKey) : List PropertyType → Option PropertyType × List PropertyType
  | [] => (none, [])
  | prop :: rest =>
    match prop.key.cmp key with
    | .lt => seekProperty key rest
    | .eq => (some prop, rest)
    | .gt => (none, prop :: rest)

/-- The obligation of one target property. -/
def relateProperty (tgtProp : PropertyType) (srcProp : Option PropertyType) (next : Rule) : Rule :=
  match srcProp with
  | some srcProp =>
    if !nominalOriginOk tgtProp srcProp then Rule.leaf src tgt
    else if srcProp.optional && !tgtProp.optional then Rule.leaf src tgt
    else
      (Rule.relate srcProp.ty tgtProp.ty).andThen
        (fun child => .of (.property tgtProp.key src tgt child.head)) next
  | none => if tgtProp.optional then next else Rule.no (.missingProperty tgtProp.key src tgt)

/-- The loop of `relate_object_named_properties`; a target key that comes twice finds the same
    source property. -/
def relateNamedProperties (src tgt : TypeId) :
    List PropertyType → List PropertyType → Option (PropertyKey × Option PropertyType) → Rule →
      Rule
  | [], _, _, next => next
  | tgtProp :: rest, cursor, previous, next =>
    let (found, cursor) :=
      match previous with
      | some (key, found) =>
        if key = tgtProp.key then (found, cursor) else seekProperty tgtProp.key cursor
      | none => seekProperty tgtProp.key cursor
    relateProperty src tgt tgtProp found
      (relateNamedProperties src tgt rest cursor (some (tgtProp.key, found)) next)

/-- The values that an index signature of the target constrains. -/
def relateIndexValues (values : List TypeId) (tgtValue : TypeId) (next : Rule) : Rule :=
  Rule.all values (fun value => Rule.relate value tgtValue)
    (fun _ child => .of (.indexSignature src tgt child.head)) next

/-- `relate_object_index_signatures`. -/
def relateObjectIndexSignatures (srcObj tgtObj : ObjectType) : Rule :=
  let named := srcObj.properties.filterMap (fun prop => prop.key.asString.map (fun name =>
    (name, prop.ty)))
  let numberIndex :=
    match tgtObj.numberIndex with
    | none => Rule.yes
    | some tgtValue =>
      relateIndexValues src tgt
        ((named.filter (fun prop => isNumericPropertyName text prop.1)).map (fun prop => prop.2)
          ++ srcObj.numberIndex.toList) tgtValue Rule.yes
  match tgtObj.stringIndex with
  | none => numberIndex
  | some tgtValue =>
    relateIndexValues src tgt (named.map (fun prop => prop.2) ++ srcObj.stringIndex.toList)
      tgtValue numberIndex

/-- `relate_signature_sets`. -/
def relateSignatureSets (srcSignatures tgtSignatures : List TypeId) (next : Rule) : Rule :=
  if srcSignatures.isEmpty || tgtSignatures.isEmpty then Rule.leaf src tgt
  else
    Rule.all tgtSignatures
      (fun tgtSig => Rule.any srcSignatures (fun srcSig => Rule.probe srcSig tgtSig)
        (Rule.leaf src tgt))
      (fun _ _ => .leaf src tgt) next

/-! ## §4 Functions -/

/-- `relate_parameter_slot`. -/
def relateParameterSlot (srcSlot tgtSlot : ParamSlot) : Rule :=
  (Rule.relate srcSlot.ty tgtSlot.ty).bind (fun
    | .no child =>
      if tgtSlot.acceptsUndefined then
        (Rule.probe srcSlot.ty wk.undefined).orElse (fun _ => .done (.no child))
      else .done (.no child)
    | .yes =>
      if srcSlot.acceptsUndefined && !tgtSlot.acceptsUndefined then
        Rule.relate wk.undefined tgtSlot.ty
      else Rule.yes)

/-- The slot of the accepting side for an argument of `relate_parameter_tail`. -/
def acceptedIndex (arguments accepts : ParamTail) (argumentIndex : Nat) : Option Nat :=
  let fromEnd := arguments.slotCount - 1 - argumentIndex
  if accepts.variadic.isSome && decide (accepts.startCount ≤ argumentIndex) then
    let back := 1 + min fromEnd accepts.endCount
    if back ≤ accepts.slotCount then some (accepts.slotCount - back) else none
  else some argumentIndex

/-- `relate_parameter_tail`. -/
def relateParameterTail (argumentRoot acceptedRoot : TypeId) (arguments accepts : ParamTail) :
    Rule :=
  let tooMany :=
    match accepts.maxLen with
    | none => false
    | some acceptedMax =>
      match arguments.maxLen with
      | none => true
      | some argumentMax => decide (acceptedMax < argumentMax)
  if decide (arguments.minLen < accepts.minLen) || tooMany then Rule.leaf argumentRoot acceptedRoot
  else
    Rule.all (List.range arguments.slotCount)
      (fun index =>
        match arguments.slot index, (acceptedIndex arguments accepts index).bind accepts.slot with
        | some argument, some accepted =>
          if accepted.required && (argument.rest || !argument.required) then
            Rule.leaf argumentRoot acceptedRoot
          else relateParameterSlot wk argument.slot accepted.slot
        | _, _ => Rule.leaf argumentRoot acceptedRoot)
      (fun _ child => child) Rule.yes

/-- `relate_function_parameters`. -/
def relateFunctionParameters (srcParams tgtParams : ParamShape) (next : Rule) :
    Rule :=
  let aggregateTail := srcParams.hasNonArrayRest || tgtParams.hasNonArrayRest
  let srcCount := srcParams.parameterCount
  let tgtCount := tgtParams.parameterCount
  let parameterCount := if aggregateTail then min srcCount tgtCount else max srcCount tgtCount
  let stableCount := parameterCount - if aggregateTail then 1 else 0
  let tail :=
    if aggregateTail && parameterCount != 0 then
      let index := parameterCount - 1
      (relateParameterTail wk tgt src (tgtParams.tail index) (srcParams.tail index)).andThen
        (fun child => .of (.parameter index src tgt child.head)) next
    else next
  Rule.all (List.range stableCount)
    (fun index =>
      match srcParams.positionalSlot index, tgtParams.positionalSlot index with
      | some srcSlot, some tgtSlot => relateParameterSlot wk tgtSlot srcSlot
      | _, _ => Rule.yes)
    (fun index child => .of (.parameter index src tgt child.head)) tail

/-- Whether the source asks for more arguments than the target passes. -/
def arityFails (srcParams tgtParams : ParamShape) : Bool :=
  if tgtParams.variadic.isSome then
    let suffixExceedsShortest := !srcParams.suffix.isEmpty
      && decide (tgtParams.minLen < srcParams.prefixSlots.length + srcParams.suffix.length)
    if tgtParams.suffix.isEmpty then suffixExceedsShortest
    else if srcParams.variadic.isSome then
      suffixExceedsShortest
        || (srcParams.prefixSlots.drop tgtParams.prefixSlots.length).any
          (fun slot => !slot.acceptsUndefined)
    else
      decide (tgtParams.prefixSlots.length < srcParams.prefixSlots.length + srcParams.suffix.length)
  else decide (tgtParams.minLen < srcParams.minLen)

/-- The rests of parameters nest at most that deep. -/
def shapeFuel : Nat := store.len + 2

/-- `relate_function_shapes`. -/
def relateFunctionShapes (srcFn tgtFn : FunctionType) : Rule :=
  let shapes : Rule :=
    match functionParamShape store wk (shapeFuel store) srcFn,
      functionParamShape store wk (shapeFuel store) tgtFn with
    | some (some srcParams), some (some tgtParams) =>
      if arityFails srcParams tgtParams then Rule.no (.parameterCount src tgt)
      else
        relateFunctionParameters wk src tgt srcParams tgtParams
          -- a `void` return accepts any result
          (if tgtFn.ret ≠ wk.void then
            (Rule.relate srcFn.ret tgtFn.ret).andThen
              (fun child => .of (.returnType src tgt child.head)) Rule.yes
          else Rule.yes)
    | none, _ => .stuck
    | some none, _ => Rule.leaf src tgt
    | some (some _), none => .stuck
    | some (some _), some none => Rule.leaf src tgt
  match srcFn.receiver, tgtFn.receiver with
  | some srcReceiver, some tgtReceiver =>
    (Rule.probe tgtReceiver srcReceiver).andThen (fun _ => .leaf src tgt) shapes
  | _, _ => shapes

/-- `generic_function_constraints_compatible`, in front of the shapes. -/
def genericConstraintsCompatible (srcFn tgtFn : FunctionType) (next : Rule) :
    Rule :=
  Rule.all (srcFn.typeParams.zip tgtFn.typeParams)
    (fun pair => Rule.probe (pair.2.constraint.getD wk.unknown) (pair.1.constraint.getD wk.unknown))
    (fun _ _ => .leaf src tgt) next

/-- `with_binder_context`. -/
def withBinderContext (context : BinderRelationContext) (body : Rule) : Rule :=
  .within context body .done

/-- `relate_functions`. -/
def relateFunctions : Rule :=
  match store.functionType src, store.functionType tgt with
  | some srcFn, some tgtFn =>
    let shapes := relateFunctionShapes store wk src tgt srcFn tgtFn
    match srcFn.typeParams.isEmpty, tgtFn.typeParams.isEmpty with
    | true, true => shapes
    | true, false => Rule.leaf src tgt
    | false, true => withBinderContext (.sourceSpecialization srcFn.typeParams) shapes
    | false, false =>
      if srcFn.typeParams.length ≠ tgtFn.typeParams.length then Rule.leaf src tgt
      else
        withBinderContext (.aligned srcFn.typeParams tgtFn.typeParams)
          (genericConstraintsCompatible wk src tgt srcFn tgtFn shapes)
  | _, _ => Rule.leaf src tgt

/-- The context of `relate_construct_functions` for different arities; `none` when a used target
    binder has no constraint. -/
def constructContext (srcFn tgtFn : FunctionType) : Option BinderRelationContext :=
  let context := BinderRelationContext.constructAritySpecialization srcFn.typeParams
    tgtFn.typeParams
  let shared := min srcFn.typeParams.length tgtFn.typeParams.length
  let context := (srcFn.typeParams.drop shared).foldl (fun context param =>
    if param.constraint.isSome && !functionParametersContainTypeParam store srcFn param.id then
      { context with instantiableSource := context.instantiableSource.erase param.id }
    else context) context
  (tgtFn.typeParams.drop shared).foldlM (fun context param =>
    if !functionShapeContainsTypeParam store tgtFn param.id then
      some { context with
        parameters := context.parameters.erase param.id
        constraints := context.constraints.erase param.id }
    else if param.constraint.isNone then none
    else some context) context

/-- `relate_construct_functions`. -/
def relateConstructFunctions : Rule :=
  match store.functionType src, store.functionType tgt with
  | some srcFn, some tgtFn =>
    if srcFn.typeParams.isEmpty || tgtFn.typeParams.isEmpty
        || srcFn.typeParams.length == tgtFn.typeParams.length then relateFunctions store wk src tgt
    else
      match constructContext store srcFn tgtFn with
      | none => Rule.leaf src tgt
      | some context =>
        withBinderContext context
          (genericConstraintsCompatible wk src tgt srcFn tgtFn
            (relateFunctionShapes store wk src tgt srcFn tgtFn))
  | _, _ => Rule.leaf src tgt

/-- `relate_overloaded_construct_to_generic_target`. -/
def relateOverloadedConstruct : Rule :=
  match store.functionType src, store.functionType tgt with
  | some srcFn, some tgtFn =>
    if srcFn.typeParams.isEmpty || srcFn.typeParams.length != tgtFn.typeParams.length then
      Rule.leaf src tgt
    else
      withBinderContext (.aligned srcFn.typeParams tgtFn.typeParams)
        (relateFunctionShapes store wk src tgt srcFn tgtFn)
  | _, _ => Rule.leaf src tgt

/-- `relate_construct_signature_sets`. -/
def relateConstructSignatureSets (srcSignatures tgtSignatures : List TypeId) (next : Rule) : Rule :=
  if srcSignatures.isEmpty || tgtSignatures.isEmpty then Rule.leaf src tgt
  else
    Rule.all tgtSignatures
      (fun tgtSig => Rule.withoutReason
        (Rule.any srcSignatures (fun srcSig => relateConstructFunctions store wk srcSig tgtSig)
          (if srcSignatures.length > 1 then
            Rule.any srcSignatures (fun srcSig => relateOverloadedConstruct store wk srcSig tgtSig)
              (Rule.leaf src tgt)
          else Rule.leaf src tgt)))
      (fun _ _ => .leaf src tgt) next

/-- `relate_objects`. -/
def relateObjects : Rule :=
  match store.objectType tgt, store.objectType src with
  | some tgtObj, some srcObj =>
    let construct :=
      if tgtObj.constructSignatures.isEmpty then
        relateObjectIndexSignatures text src tgt srcObj tgtObj
      else
        relateConstructSignatureSets store wk src tgt srcObj.constructSignatures
          tgtObj.constructSignatures (relateObjectIndexSignatures text src tgt srcObj tgtObj)
    let call :=
      if tgtObj.callSignatures.isEmpty then construct
      else relateSignatureSets src tgt srcObj.callSignatures tgtObj.callSignatures construct
    relateNamedProperties src tgt tgtObj.properties srcObj.properties none call
  | _, _ => Rule.leaf src tgt

/-- `relate_object_to_function`. -/
def relateObjectToFunction : Rule :=
  match store.objectType src with
  | none => Rule.leaf src tgt
  | some srcObj =>
    Rule.any srcObj.callSignatures (fun srcSig => Rule.probe srcSig tgt) (Rule.leaf src tgt)

/-- `relate_function_to_object`. -/
def relateFunctionToObject : Rule :=
  match store.objectType tgt with
  | none => Rule.leaf src tgt
  | some tgtObj =>
    if tgtObj.callSignatures.isEmpty then Rule.leaf src tgt
    else
      match tgtObj.properties.find? (fun prop => !prop.optional) with
      | some prop => Rule.no (.missingProperty prop.key src tgt)
      | none =>
        if !tgtObj.constructSignatures.isEmpty then Rule.leaf src tgt
        else
          Rule.all tgtObj.callSignatures (fun tgtSig => Rule.probe src tgtSig)
            (fun _ _ => .leaf src tgt) Rule.yes

/-! ## §5 Arrays and tuples -/

/-- `relate_arrays`. -/
def relateArrays : Rule :=
  match store.arrayType src, store.arrayType tgt with
  | some srcElem, some tgtElem =>
    (Rule.relate srcElem tgtElem).andThen (fun child => .of (.arrayElement src tgt child.head))
      Rule.yes
  | _, _ => Rule.leaf src tgt

/-- The shape of a tuple whose rests end. -/
def withTupleShape (tuple : TupleType) (malformed : Rule) (next : TupleShape → Rule) : Rule :=
  if restsEnd store (shapeFuel store) tuple then
    match tupleShape store (shapeFuel store) tuple with
    | none => malformed
    | some shape => next shape
  else .stuck

/-- One element of a tuple. -/
def relateElement (index : Nat) (srcElem tgtElem : TypeId) (next : Rule) :
    Rule :=
  (Rule.relate srcElem tgtElem).andThen
    (fun child => .of (.tupleElement index src tgt child.head)) next

/-- `relate_variadic_tuple_to_tuple`. -/
def relateVariadicTupleToTuple (srcShape tgtShape : TupleShape) : Rule :=
  if tgtShape.variadic.isNone || decide (srcShape.minLen < tgtShape.minLen)
      || srcShape.prefixElements.length != tgtShape.prefixElements.length
      || srcShape.suffix.length != tgtShape.suffix.length then Rule.no (.tupleLength src tgt)
  else
    let variadic :=
      match srcShape.variadic, tgtShape.variadic with
      | some srcElem, some tgtElem =>
        relateElement src tgt srcShape.prefixElements.length srcElem tgtElem Rule.yes
      | _, _ => Rule.leaf src tgt
    let suffix :=
      (srcShape.suffix.zip tgtShape.suffix).zipIdx.foldr (fun entry rest =>
        relateElement src tgt (srcShape.prefixElements.length + entry.2) entry.1.1 entry.1.2 rest)
        variadic
    (srcShape.prefixElements.zip tgtShape.prefixElements).zipIdx.foldr (fun entry rest =>
      relateElement src tgt entry.2 entry.1.1 entry.1.2 rest) suffix

/-- `relate_tuples`. -/
def relateTuples : Rule :=
  match store.tupleType src, store.tupleType tgt with
  | some srcTuple, some tgtTuple =>
    withTupleShape store srcTuple (Rule.leaf src tgt) (fun srcShape =>
      withTupleShape store tgtTuple (Rule.leaf src tgt) (fun tgtShape =>
        match srcShape.fixedLen with
        | none => relateVariadicTupleToTuple src tgt srcShape tgtShape
        | some srcLen =>
          if !tgtShape.acceptsLen srcLen then Rule.no (.tupleLength src tgt)
          else
            (List.range srcLen).foldr (fun index rest =>
              match srcShape.elementAt index srcLen, tgtShape.elementAt index srcLen with
              | some srcElem, some tgtElem => relateElement src tgt index srcElem tgtElem rest
              | _, _ => Rule.no (.tupleLength src tgt)) Rule.yes))
  | _, _ => Rule.leaf src tgt

/-- `relate_tuple_to_array`. -/
def relateTupleToArray : Rule :=
  match store.tupleType src, store.arrayType tgt with
  | some srcTuple, some tgtElem =>
    withTupleShape store srcTuple (Rule.leaf src tgt) (fun srcShape =>
      Rule.all (srcShape.prefixElements ++ srcShape.suffix ++ srcShape.variadic.toList)
        (fun srcElem => Rule.relate srcElem tgtElem)
        (fun _ child => .of (.arrayElement src tgt child.head)) Rule.yes)
  | _, _ => Rule.leaf src tgt

/-! ## §6 Intersections -/

/-- `this_type_operand(..).is_some()`. -/
def isThisTypeMarker (member : TypeId) : Bool :=
  (store.instantiationType member).any (fun instantiation =>
    instantiation.base == wk.thisType && instantiation.args.length == 1)

/-- `relate_intersection_target`. -/
def relateIntersectionTarget : Rule :=
  match store.intersectionMembers tgt with
  | none => Rule.leaf src tgt
  | some members =>
    Rule.all (members.filter (fun member => !isThisTypeMarker store wk member))
      (fun member => Rule.relate src member) (fun _ child => child) Rule.yes

/-- The properties of the members of a merged source that have a key. -/
def contributors (cands : List TypeId) (key : PropertyKey) : List PropertyType :=
  cands.filterMap (fun cand => (store.objectType cand).bind (fun object =>
    object.propertyByKey key))

/-- The types of a property of a merged source (`sort_unstable`, `dedup`). -/
def contributedTypes (cands : List TypeId) (key : PropertyKey) : List TypeId :=
  FxHashSet.sorted ((contributors store cands key).map (fun prop => prop.ty)).toFinset

/-- Whether an object has only named properties. -/
def onlyNamed (object : ObjectType) : Bool :=
  object.stringIndex.isNone && object.numberIndex.isNone && object.callSignatures.isEmpty
    && object.constructSignatures.isEmpty

/-- The obligation of one target property on a merged source. -/
def relateMergedProperty (cands : List TypeId) (recurse : List TypeId → TypeId → Rule)
    (tgtProp : PropertyType) (next : Rule) : Rule :=
  let contributing := contributors store cands tgtProp.key
  if contributing.isEmpty then
    if tgtProp.optional then next else Rule.no (.missingProperty tgtProp.key src tgt)
  else if !contributing.any (fun srcProp => nominalOriginOk tgtProp srcProp) then Rule.leaf src tgt
  else
    (match contributedTypes store cands tgtProp.key with
    | [only] => Rule.relate only tgtProp.ty
    | subcands => recurse subcands tgtProp.ty).andThen
      (fun child => .of (.property tgtProp.key src tgt child.head)) next

/-- The candidates of a target that is no object: the first success decides, and the last failure
    is the reason. -/
def relateSomeCandidate (tgt : TypeId) : List TypeId → ReasonChain → Rule
  | [], last => .done (.no last)
  | cand :: cands, _ =>
    Rule.orElse (.ask { src := cand, tgt := tgt, isolated := true } .done) (fun child =>
      relateSomeCandidate tgt cands child)

/-- `relate_source_members_to` with `relate_merged_object_properties` in it.  The candidates are
    without repetition, so the sorted vector of an in-flight key is a set. -/
def relateSourceMembersTo (src : TypeId) : Nat → List TypeId → TypeId →
    FxHashSet (FxHashSet TypeId × TypeId) → Rule
  | 0, _, _, _ => .stuck
  | fuel + 1, cands, tgt, inFlight =>
    if store.tag tgt = some .object then
      let key := (cands.toFinset, tgt)
      if key ∈ inFlight then Rule.yes
      else
        match store.objectType tgt with
        | none => Rule.leaf src tgt
        | some tgtObj =>
          if !onlyNamed tgtObj then Rule.leaf src tgt
          else
            tgtObj.properties.foldr (fun tgtProp next =>
              relateMergedProperty store src tgt cands
                (fun subcands tgt =>
                  relateSourceMembersTo src fuel subcands tgt (insert key inFlight))
                tgtProp next) Rule.yes
    else relateSomeCandidate tgt cands (.leaf src tgt)

/-- The loop of `relate_intersection_source` over the pending members, with the top of the stack
    first. -/
def flattenIntersection : Nat → List TypeId → FxHashSet TypeId → FxHashSet TypeId →
    Option (Option (FxHashSet TypeId))
  | 0, _, _, _ => none
  | _ + 1, [], _, members => some (some members)
  | fuel + 1, member :: pending, expanded, members =>
    if store.tag member = some .intersection then
      if member ∈ expanded then flattenIntersection fuel pending expanded members
      else
        match store.intersectionMembers member with
        | none => some none
        | some nested =>
          flattenIntersection fuel (nested.reverse ++ pending) (insert member expanded) members
    else flattenIntersection fuel pending expanded (insert member members)

/-- The members of all intersections. -/
def intersectionChildren : Row → List TypeId
  | .intersection members => members
  | _ => []

/-- The types that a rule can ask about, the two types of the pair apart. -/
def mentioned : FxHashSet TypeId :=
  ((List.range store.len).flatMap (childrenOf store Row.applyChildren)
    ++ (List.range store.len).flatMap (fun ty =>
      ((store.typeParam ty).bind (fun param => store.typeParamConstraint param.id)).toList)
    ++ [wk.string, wk.unknown, wk.undefined]).toFinset

/-- More than the number of keys that are in flight at once. -/
def mergeFuel : Nat := 2 ^ (mentioned store wk).card * ((mentioned store wk).card + 1) + 2

/-- `relate_intersection_source`. -/
def relateIntersectionSource : Rule :=
  match store.intersectionMembers src with
  | none => Rule.leaf src tgt
  | some rawMembers =>
    match flattenIntersection store (searchFuel store intersectionChildren + rawMembers.length)
        rawMembers.reverse {src} ∅ with
    | none => .stuck
    | some none => Rule.leaf src tgt
    | some (some members) =>
      let members := (FxHashSet.sorted members).filter (fun member =>
        !isThisTypeMarker store wk member)
      if store.tag tgt = some .object
          ∧ members.any (fun member => store.tag member == some .union) = true then
        Rule.leaf src tgt
      else relateSourceMembersTo store src (mergeFuel store wk) members tgt ∅

/-! ## §7 The dispatch -/

/-- `is_any_type`. -/
def isAnyType (id : TypeId) : Bool := id == wk.any || store.intrinsicKind id == some .any

/-- `is_error_type`. -/
def isErrorType (id : TypeId) : Bool := id == wk.error || store.intrinsicKind id == some .error

/-- `is_non_nullish_object_top_source`. -/
def isNonNullishObjectTopSource (id : TypeId) : Bool :=
  match store.tag id with
  | some .literal | some .object | some .function | some .array | some .tuple | some .readonly
  | some .template | some .classInstance => true
  | _ =>
    match store.intrinsicKind id with
    | some .boolean | some .number | some .string | some .object | some .bigInt
    | some .symbol => true
    | _ => false

/-- `intrinsic_id`, for the base kinds of literals. -/
def baseId (kind : IntrinsicKind) : TypeId :=
  match kind with
  | .number => wk.number
  | .string => wk.string
  | .boolean => wk.boolean
  | .symbol => wk.symbol
  | _ => wk.error

/-- `relate_template_source`. -/
def relateTemplateSource : Rule :=
  if tgt = wk.string then Rule.yes
  else if store.tag tgt = some .template ∧ templateSubsumes store src tgt = true then Rule.yes
  else Rule.leaf src tgt

/-- `relate_template_target`. -/
def relateTemplateTarget : Rule :=
  match store.templateType tgt with
  | none => Rule.leaf src tgt
  | some template =>
    match store.literalValue src with
    | some (.string s) =>
      match matchLiteralAgainstPattern text store (shapeFuel store) s template with
      | none => .stuck
      | some true => Rule.yes
      | some false => Rule.leaf src tgt
    | _ =>
      if src = wk.string ∧ isBareStringHole store template = true then Rule.yes
      else Rule.leaf src tgt

/-- The rules behind the ones for object tops. -/
def relateStructures : Rule :=
  match store.tag src, store.tag tgt with
  | some .object, some .object => relateObjects text store wk src tgt
  | some .function, some .function => relateFunctions store wk src tgt
  | some .object, some .function => relateObjectToFunction store src tgt
  | some .function, some .object => relateFunctionToObject store src tgt
  | some .array, some .array => relateArrays store src tgt
  | some .tuple, some .tuple => relateTuples store src tgt
  | some .tuple, some .array => relateTupleToArray store src tgt
  | _, _ => Rule.leaf src tgt

/-- The rules behind the ones for unions and intersections. -/
def relateShapes : Rule :=
  if tgt = wk.unknown then Rule.yes
  else if tgt = wk.void ∧ src = wk.undefined then Rule.yes
  else if (store.literalValue src).any (fun value => baseId wk value.baseKind == tgt) then Rule.yes
  -- the empty object type
  else if (store.objectType tgt).any (fun object => object.properties.isEmpty && onlyNamed object)
      ∧ isNonNullishObjectTopSource store src = true then Rule.yes
  else if store.tag src = some .template then relateTemplateSource store wk src tgt
  else if store.tag tgt = some .template then relateTemplateTarget text store wk src tgt
  -- the `object` keyword
  else if tgt = wk.object ∧ (store.tag src = some .object ∨ store.tag src = some .function
      ∨ store.tag src = some .array ∨ store.tag src = some .tuple
      ∨ store.tag src = some .readonly ∨ store.tag src = some .classInstance) then Rule.yes
  else if store.tag tgt = some .readonly then
    match store.readonlyOperand tgt with
    | none => Rule.leaf src tgt
    | some tgtOperand =>
      Rule.relate (if store.tag src = some .readonly then (store.readonlyOperand src).getD src
        else src) tgtOperand
  else if store.tag src = some .readonly then Rule.leaf src tgt
  else relateStructures text store wk src tgt

/-- Whether nothing but an identical type is assignable to it. -/
def isDeferredTarget (tgt : TypeId) : Bool :=
  match store.tag tgt with
  | some .conditional | some .instantiation | some .mapped | some .keyof => true
  | _ => false

/-- The rules behind the one for a constrained source parameter. -/
def relateSets : Rule :=
  if store.tag tgt ≠ some .object
      ∧ (store.intersectionMembers src).any (fun members => members.contains tgt) = true then
    -- an intersection is a subtype of each of its conjuncts
    Rule.yes
  else if store.tag src = some .conditional then relateConditionalSource store src tgt
  else if isDeferredTarget store tgt then Rule.leaf src tgt
  else if store.tag src = some .instantiation then
    if (store.instantiationType src).any (fun instantiation =>
        wk.isStringIntrinsicMarker instantiation.base) then
      (Rule.probe wk.string tgt).orElse (fun _ => Rule.leaf src tgt)
    else Rule.leaf src tgt
  else if store.tag src = some .mapped ∨ store.tag src = some .keyof then Rule.leaf src tgt
  else if store.tag src = some .union then relateUnionSource store src tgt
  else if store.tag tgt = some .union then relateUnionTarget store src tgt
  else if store.tag tgt = some .intersection then relateIntersectionTarget store wk src tgt
  else if store.tag src = some .intersection then relateIntersectionSource store wk src tgt
  else relateShapes text store wk src tgt

/-- The constraint of a source parameter: that of the contexts, else the declared one. -/
def sourceConstraint (contexts : List BinderRelationContext) (src : TypeId) : Option TypeId :=
  (contextualTypeParamConstraint store contexts src).getD
    ((store.typeParam src).bind (fun param => store.typeParamConstraint param.id))

/-- `relate_uncached`. -/
def relateUncached (contexts : List BinderRelationContext) (src tgt : TypeId) : Rule :=
  if isErrorType store wk src || isErrorType store wk tgt then Rule.yes
  else if src = wk.never then Rule.yes
  else if isAnyType store wk src then
    if tgt = wk.never then Rule.leaf src tgt else Rule.yes
  else if isAnyType store wk tgt then Rule.yes
  else if store.tag src = some .typeParam then
    match sourceConstraint store contexts src with
    | none => relateSets text store wk src tgt
    | some constraint =>
      (Rule.probe constraint tgt).orElse (fun _ => relateSets text store wk src tgt)
  else relateSets text store wk src tgt

end Rules

end Typokat.Relate
