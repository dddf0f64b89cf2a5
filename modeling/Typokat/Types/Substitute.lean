import Typokat.Types.Intern

/-!
# Substitution (`typokat-types/src/types/substitute/{mod,apply}.rs`)

Rewriting a type under a map from declaration parameters to types.  What one row asks
for is the same in every walk of this development, so it is a function of its own
(`dispatch`): a finished result, a distribution over the members of an argument, or an
`Arm`, which is the child list of one `apply_*` function of the source together with the
constructor that it re-interns through.

`Substitution.apply` is the memoized walk of the source.  All walks carry fuel; `none` is
a panic or exhausted fuel.

## Main Definitions

- `dispatch` : the `match` on the tag in `Substitution::apply`
- `Substitution.apply` : the memoized walk with its two memos and its free-set test
- `substituteWithOutcome`, `substitute` : a whole run, with the durable result cache
-/

namespace Typokat.Types

variable (structuralHash : StructuralKey → Nat)

/-! ## §1 Putting rewritten children back -/

/-- Distribute rewritten children over the properties; the rest of the list is returned. -/
def rewriteProperties : List PropertyType → List TypeId → List PropertyType × List TypeId
  | [], rest => ([], rest)
  | property :: properties, children =>
    let (ty, children) := (children.headD property.ty, children.tail)
    match property.writeTy with
    | none =>
      let (rewritten, rest) := rewriteProperties properties children
      ({ property with ty } :: rewritten, rest)
    | some writeTy =>
      let (rewritten, rest) := rewriteProperties properties children.tail
      ({ property with ty, writeTy := some (children.headD writeTy) } :: rewritten, rest)

/-- Take a rewritten child for an optional position. -/
def rewriteOption : Option TypeId → List TypeId → Option TypeId × List TypeId
  | none, children => (none, children)
  | some old, children => (some (children.headD old), children.tail)

/-- Distribute rewritten constraints and defaults over the binders. -/
def rewriteTypeParams : List GenericTypeParam → List TypeId → List GenericTypeParam × List TypeId
  | [], rest => ([], rest)
  | param :: params, children =>
    let (constraint, children) := rewriteOption param.constraint children
    let (default, children) := rewriteOption param.default children
    let (rewritten, rest) := rewriteTypeParams params children
    ({ param with constraint, default } :: rewritten, rest)

/-- Distribute rewritten parameter types. -/
def rewriteParams : List ParameterType → List TypeId → List ParameterType × List TypeId
  | [], rest => ([], rest)
  | param :: params, children =>
    let (rewritten, rest) := rewriteParams params children.tail
    ({ param with ty := children.headD param.ty } :: rewritten, rest)

/-- The object with its children replaced, in the order of `Row.applyChildren`. -/
def ObjectType.withChildren (object : ObjectType) (children : List TypeId) : ObjectType :=
  let (properties, children) := rewriteProperties object.properties children
  let (stringIndex, children) := rewriteOption object.stringIndex children
  let (numberIndex, children) := rewriteOption object.numberIndex children
  { properties, stringIndex, numberIndex
    callSignatures := children.take object.callSignatures.length
    constructSignatures := children.drop object.callSignatures.length }

/-- The function with its children replaced, in the order of `Row.applyChildren`. -/
def FunctionType.withChildren (function : FunctionType) (children : List TypeId) :
    FunctionType :=
  let (typeParams, children) := rewriteTypeParams function.typeParams children
  let (params, children) := rewriteParams function.params children
  let (receiver, children) := rewriteOption function.receiver children
  { typeParams, receiver, params, ret := children.headD function.ret }

/-! ## §2 What a row asks for -/

/-- One `apply_*` arm: the children it rewrites, and how it re-interns when one changed. -/
structure Arm where
  children : List TypeId
  /-- the arm keeps its id in `in_progress` while it rewrites -/
  tracked : Bool := false
  /-- the binders the arm blocks while it rewrites -/
  binders : List TypeParamId := []
  /-- the arm re-interns although no child changed -/
  forced : Bool := false
  rebuild : List TypeId → Interner → Option (TypeId × Interner)

def applyObject (object : ObjectType) : Arm where
  children := (Row.object object).applyChildren
  tracked := true
  rebuild := fun new interner =>
    some (interner.internObject structuralHash (object.withChildren new))

def applyFunction (function : FunctionType) : Arm where
  children := (Row.function function).applyChildren
  tracked := true
  binders := (Row.function function).binders
  rebuild := fun new interner =>
    some (interner.internFunction structuralHash (function.withChildren new))

def applyUnion (members : List TypeId) : Arm where
  children := members
  tracked := true
  rebuild := fun new interner => interner.union structuralHash new

def applyIntersection (members : List TypeId) : Arm where
  children := members
  tracked := true
  rebuild := fun new interner => interner.intersection structuralHash new

def applyArray (element : TypeId) : Arm where
  children := [element]
  rebuild := fun new interner =>
    some (interner.internArray structuralHash (new.headD element))

def applyTuple (tuple : TupleType) : Arm where
  children := (Row.tuple tuple).applyChildren
  rebuild := fun new interner =>
    some (interner.internTupleType structuralHash
      { elements := new.take tuple.elements.length
        rest := tuple.rest.map (fun rest =>
          { rest with ty := (new.drop tuple.elements.length).headD rest.ty }) })

def applyReadonly (operand : TypeId) : Arm where
  children := [operand]
  rebuild := fun new interner =>
    some (interner.internReadonly structuralHash (new.headD operand))

/-- The plain rewrite of `apply_conditional`, past its distribution guard. -/
def applyConditional (conditional : ConditionalType) : Arm where
  children := (Row.conditional conditional).applyChildren
  rebuild := fun new interner =>
    some (interner.internConditional structuralHash
      { conditional with
        check := new.getD 0 conditional.check
        extendsTy := new.getD 1 conditional.extendsTy
        trueBranch := new.getD 2 conditional.trueBranch
        falseBranch := new.getD 3 conditional.falseBranch })

def applyInstantiation (instantiation : InstantiationType) : Arm where
  children := (Row.instantiation instantiation).applyChildren
  rebuild := fun new interner =>
    some (interner.internInstantiation structuralHash instantiation.base
      ((instantiation.args.map (fun arg => arg.1)).zip new))

def applyClassInstance (instance_ : ClassInstanceType) : Arm where
  children := instance_.args
  rebuild := fun new interner =>
    some (interner.internClassInstance structuralHash instance_.classId new)

/-- The plain rewrite of `apply_mapped`, past its distribution guard. -/
def applyMapped (mapped : MappedType) : Arm where
  children := (Row.mapped mapped).applyChildren
  rebuild := fun new interner =>
    some (interner.internMapped structuralHash
      { mapped with
        keySource := new.getD 0 mapped.keySource
        valueTemplate := new.getD 1 mapped.valueTemplate
        modifiersSource := mapped.modifiersSource.map (fun source => new.getD 2 source) })

def applyTemplate (template : TemplateType) : Arm where
  children := template.holes
  rebuild := fun new interner =>
    some (interner.internTemplate structuralHash { template with holes := new })

def applyKeyof (operand : TypeId) : Arm where
  children := [operand]
  rebuild := fun new interner =>
    some (interner.internKeyof structuralHash (new.headD operand))

def applyDeferredIndexedAccess (access : DeferredIndexedAccessType) : Arm where
  children := [access.object, access.index]
  rebuild := fun new interner =>
    some (interner.internDeferredIndexedAccess structuralHash
      (new.getD 0 access.object) (new.getD 1 access.index))

/-- Compose the map into the mapper of a recipe: mapped parameters of the recipe rewrite
    their value, the others take their argument unless a binder blocks them. -/
def applyDeclared (map : FxHashMap TypeParamId TypeId) (blocked : FxHashSet TypeParamId)
    (declared : DeclaredType) (freeParams : List TypeParamId) : Arm :=
  let existing := freeParams.filter (fun p => decide (p ∈ declared.mapper.map (fun e => e.1)))
  let added := freeParams.filterMap (fun p =>
    if p ∈ declared.mapper.map (fun e => e.1) ∨ p ∈ blocked then none
    else (map.lookup p).map (fun value => (p, value)))
  { children := existing.filterMap (fun p => declared.mapper.lookup p)
    forced := !added.isEmpty
    rebuild := fun new interner =>
      interner.internDeclared structuralHash declared.recipe (existing.zip new ++ added) }

/-- What `Substitution::apply` does with a row. -/
inductive Dispatch
  /-- the result needs no further walk -/
  | done (result : TypeId)
  /-- a distributive conditional becomes a lazy instantiation with the whole map -/
  | defer
  /-- a homomorphic map runs once for each member of its argument -/
  | distribute (param : TypeParamId) (members : List TypeId)
  /-- rewrite the children -/
  | rewrite (arm : Arm)

/-- `distributes_over`; the argument's tag is read first. -/
def distributesOver (interner : Interner) (arg : TypeId) : Option Bool :=
  (interner.store.tag arg).map (fun tag =>
    tag == .union || arg == interner.wellKnown.never || arg == interner.wellKnown.boolean)

/-- The argument of a naked parameter; this lookup does not ask whether it is blocked.  The
    outer option is the panic of an id out of range. -/
def nakedArgument (map : FxHashMap TypeParamId TypeId) (interner : Interner) (ty : TypeId) :
    Option (Option (TypeParamId × TypeId)) :=
  (interner.store.tag ty).map (fun _ => do
    let param ← interner.store.typeParam ty
    let arg ← map.lookup param.id
    some (param.id, arg))

/-- The distribution guard of `apply_conditional`. -/
def dispatchConditional (map : FxHashMap TypeParamId TypeId) (interner : Interner)
    (conditional : ConditionalType) : Option Dispatch :=
  if conditional.distributive && !conditional.poisoned then do
    match ← nakedArgument map interner conditional.check with
    | some (_, arg) =>
      if ← distributesOver interner arg then return .defer
      return .rewrite (applyConditional structuralHash conditional)
    | none => return .rewrite (applyConditional structuralHash conditional)
  else some (.rewrite (applyConditional structuralHash conditional))

/-- The distribution guard of `apply_mapped`. -/
def dispatchMapped (map : FxHashMap TypeParamId TypeId) (interner : Interner) (mapped : MappedType) :
    Option Dispatch :=
  if mapped.homomorphic then do
    match ← nakedArgument map interner mapped.keySource with
    | some (param, arg) =>
      if arg = interner.wellKnown.never then return .done interner.wellKnown.never
      let _ ← interner.store.tag arg
      match interner.store.unionMembers arg with
      | some members => return .distribute param members
      | none => return .rewrite (applyMapped structuralHash mapped)
    | none => return .rewrite (applyMapped structuralHash mapped)
  else some (.rewrite (applyMapped structuralHash mapped))

/-- The `match` on the tag. -/
def dispatch (map : FxHashMap TypeParamId TypeId) (blocked : FxHashSet TypeParamId)
    (interner : Interner) (ty : TypeId) : Row → Option Dispatch
  | .typeParam param =>
    some (.done (if param.id ∈ blocked then ty else (map.lookup param.id).getD ty))
  | .intrinsic _ => some (.done ty)
  | .literal _ => some (.done ty)
  | .infer _ => some (.done ty)
  | .mappedValue => some (.done ty)
  | .object body => some (.rewrite (applyObject structuralHash body))
  | .function body => some (.rewrite (applyFunction structuralHash body))
  | .union members => some (.rewrite (applyUnion structuralHash members))
  | .intersection members => some (.rewrite (applyIntersection structuralHash members))
  | .array element => some (.rewrite (applyArray structuralHash element))
  | .tuple body => some (.rewrite (applyTuple structuralHash body))
  | .readonly operand => some (.rewrite (applyReadonly structuralHash operand))
  | .conditional body => dispatchConditional structuralHash map interner body
  | .instantiation body => some (.rewrite (applyInstantiation structuralHash body))
  | .classInstance body => some (.rewrite (applyClassInstance structuralHash body))
  | .mapped body => dispatchMapped structuralHash map interner body
  | .template body => some (.rewrite (applyTemplate structuralHash body))
  | .keyof operand => some (.rewrite (applyKeyof structuralHash operand))
  | .deferredIndexedAccess body => some (.rewrite (applyDeferredIndexedAccess structuralHash body))
  | .declared body => do
    let recipe ← interner.store.declaredRecipe body.recipe
    some (.rewrite (applyDeclared structuralHash map blocked body recipe.freeParams))

/-- Re-intern an arm when a child changed. -/
def Arm.finish (arm : Arm) (ty : TypeId) (new : List TypeId) (interner : Interner) :
    Option (TypeId × Interner) :=
  if arm.forced || decide (new ≠ arm.children) then arm.rebuild new interner
  else some (ty, interner)

/-- Thread a state through the rewriting of a list. -/
def rewriteAll {S A B : Type} (f : A → S → Option (B × S)) : List A → S → Option (List B × S)
  | [], s => some ([], s)
  | x :: xs, s => do
    let (y, s) ← f x s
    let (ys, s) ← rewriteAll f xs s
    some (y :: ys, s)

/-! ## §3 The memoized walk -/

/-- `tag_can_reenter`: the rows whose id can be in progress. -/
def Row.canReenter : Row → Bool
  | .object _ => true
  | .function _ => true
  | .union _ => true
  | .intersection _ => true
  | _ => false

/-- A cycle-tainted result and the stack cut it depends on. -/
structure TaintedEntry where
  result : TypeId
  reentered : FxHashSet TypeId
  visited : FxHashSet TypeId
  deriving DecidableEq

/-- The memo key: the id and the blocked map keys that are free in it. -/
abbrev MemoKey := TypeId × List TypeParamId

/-- A substitution run. -/
structure Substitution where
  map : FxHashMap TypeParamId TypeId
  inProgress : FxHashSet TypeId := ∅
  blocked : FxHashSet TypeParamId := ∅
  completed : FxHashMap MemoKey TypeId := ∅
  tainted : FxHashMap MemoKey TaintedEntry := ∅
  frameReentered : FxHashSet TypeId := ∅
  frameVisited : FxHashSet TypeId := ∅
  cycleEpoch : Nat := 0
  freeParamSummaries : FxHashMap TypeId (List TypeParamId) := ∅

/-- `SubstitutionOutcome`. -/
inductive SubstitutionOutcome
  | cycleClean (result : TypeId)
  | cycleTainted (result : TypeId)
  deriving DecidableEq, Repr

def SubstitutionOutcome.result : SubstitutionOutcome → TypeId
  | .cycleClean result => result
  | .cycleTainted result => result

def SubstitutionOutcome.isTainted : SubstitutionOutcome → Bool
  | .cycleClean _ => false
  | .cycleTainted _ => true

namespace Substitution

variable (sub : Substitution)

/-- `application_summary`. -/
def applicationSummary (interner : Interner) (ty : TypeId) :
    Option (ApplicationSummary × Substitution × Interner) := do
  let cachedFreeParams :=
    (sub.freeParamSummaries.lookup ty).or (interner.freeParamSummary ty).1
  -- the durable cache is consulted, hence aligned, only when the run has no summary
  let interner := if ty ∈ sub.freeParamSummaries then interner else (interner.freeParamSummary ty).2
  let (cachedKeyMode, interner) := interner.applicationKeyMode ty
  let (summary, interner) ←
    match cachedFreeParams, cachedKeyMode with
    | some freeParams, some keyMode =>
      some ((⟨freeParams, keyMode⟩ : ApplicationSummary), interner)
    | _, _ => interner.computeApplicationSummaries ty
  some (summary,
    { sub with freeParamSummaries := sub.freeParamSummaries.insert ty summary.freeParams }, interner)

/-- `free_param_summary`. -/
def freeParamSummary (interner : Interner) (ty : TypeId) :
    Option (List TypeParamId × Substitution × Interner) :=
  match sub.freeParamSummaries.lookup ty with
  | some summary => some (summary, sub, interner)
  | none => do
    let (summary, sub, interner) ← sub.applicationSummary interner ty
    some (summary.freeParams,
      { sub with freeParamSummaries := sub.freeParamSummaries.insert ty summary.freeParams },
      interner)

/-- Whether no parameter of the list is both mapped and unblocked. -/
def allInert (map : FxHashMap TypeParamId TypeId) (blocked : FxHashSet TypeParamId)
    (freeParams : List TypeParamId) : Bool :=
  freeParams.all (fun id => decide (id ∈ blocked) || !decide (id ∈ map))

/-- `canonical_blocked_context`. -/
def canonicalBlockedContext (ty : TypeId) : List TypeParamId :=
  ((sub.freeParamSummaries.lookup ty).getD []).filter
    (fun id => decide (id ∈ sub.map) && decide (id ∈ sub.blocked))

/-- Whether the current stack still cuts the graph as it did for the entry. -/
def reusable (entry : TaintedEntry) : Bool :=
  decide (entry.reentered ⊆ sub.inProgress) && decide (Disjoint sub.inProgress entry.visited)

/-- `clean_application_key`. -/
def cleanApplicationKey (interner : Interner) (ty : TypeId) :
    Option (Option CleanApplicationKey × Substitution × Interner) :=
  if FxHashMap.isEmpty sub.map then some (none, sub, interner)
  else do
    let (summary, sub, interner) ← sub.applicationSummary interner ty
    if !summary.freeParams.any (fun id => decide (id ∈ sub.map)) then
      return (none, sub, interner)
    let arguments :=
      match summary.keyMode with
      | .relevantOnly => summary.freeParams.filterMap (fun id =>
          (sub.map.lookup id).map (fun argument => (id, argument)))
      | .fullMap => FxHashMap.sortedEntries sub.map
    return (CleanApplicationKey.fromSortedArguments ty summary.keyMode arguments, sub, interner)

/-- Enter the frame of a row: its own dependency record starts empty. -/
def openFrame : Substitution :=
  { sub with frameReentered := ∅, frameVisited := ∅ }

/-- Close the frame of a row and file its result in one of the two memos. -/
def closeFrame (saved sub : Substitution) (key : MemoKey) (canReenter : Bool) (result : TypeId) :
    Substitution :=
  let own : FxHashSet TypeId := if canReenter then {key.1} else ∅
  if sub.cycleEpoch = saved.cycleEpoch then
    { sub with
      completed := sub.completed.insert key result
      frameReentered := saved.frameReentered
      frameVisited := saved.frameVisited ∪ own }
  else
    -- a frame that opened and closed inside this subtree leaves its own record
    let reentered := sub.frameReentered.erase key.1
    { sub with
      tainted := sub.tainted.insert key ⟨result, reentered, sub.frameVisited⟩
      frameReentered := saved.frameReentered ∪ reentered
      frameVisited := saved.frameVisited ∪ sub.frameVisited ∪ own }

end Substitution

/-- A walk with a memo: it threads the run and the interner. -/
abbrev Apply := TypeId → Substitution × Interner → Option (TypeId × Substitution × Interner)

/-- `substitute_with_outcome`, over the walk that `apply` stands for. -/
def substituteWith (apply : Apply) (interner : Interner) (ty : TypeId)
    (map : FxHashMap TypeParamId TypeId) : Option (SubstitutionOutcome × Interner) := do
  let (cleanKey, sub, interner) ← Substitution.cleanApplicationKey { map } interner ty
  let (cached, interner) :=
    match cleanKey with
    | some key => interner.cleanApplicationResult key
    | none => (none, interner)
  match cached with
  | some result => return (.cycleClean result, interner)
  | none =>
    let (result, sub, interner) ← apply ty (sub, interner)
    if sub.cycleEpoch = 0 then
      return (.cycleClean result,
        match cleanKey with
        | some key => interner.publishCleanApplicationResult key result
        | none => interner)
    else return (.cycleTainted result, interner)

/-- One member of a distributed homomorphic map: a fresh run with the member as argument. -/
def applyMember (apply : Apply) (ty : TypeId) (param : TypeParamId) (member : TypeId)
    (state : Substitution × Interner) : Option (TypeId × Substitution × Interner) := do
  let (sub, interner) := state
  let (outcome, interner) ← substituteWith apply interner ty (sub.map.insert param member)
  let sub := if outcome.isTainted then { sub with cycleEpoch := sub.cycleEpoch + 1 } else sub
  some (outcome.result, sub, interner)

/-- Rewrite the children of an arm with its id in progress and its binders blocked. -/
def applyArm (apply : Apply) (ty : TypeId) (arm : Arm) (state : Substitution × Interner) :
    Option (TypeId × Substitution × Interner) := do
  let (sub, interner) := state
  let newlyBlocked := arm.binders.toFinset \ sub.blocked
  let entered := { sub with
    inProgress := if arm.tracked then insert ty sub.inProgress else sub.inProgress
    blocked := sub.blocked ∪ newlyBlocked }
  let (new, sub, interner) ← rewriteAll apply arm.children (entered, interner)
  let sub := { sub with
    inProgress := if arm.tracked then sub.inProgress.erase ty else sub.inProgress
    blocked := sub.blocked \ newlyBlocked }
  let (result, interner) ← arm.finish ty new interner
  some (result, sub, interner)

/-- The body of a frame. -/
def applyRow (apply : Apply) (ty : TypeId) (row : Row) (state : Substitution × Interner) :
    Option (TypeId × Substitution × Interner) := do
  let (sub, interner) := state
  match ← dispatch structuralHash sub.map sub.blocked interner ty row with
  | .done result => return (result, sub, interner)
  | .defer =>
    let (result, interner) :=
      interner.internInstantiation structuralHash ty (FxHashMap.sortedEntries sub.map)
    return (result, sub, interner)
  | .distribute param members =>
    let (perMember, sub, interner) ←
      rewriteAll (applyMember apply ty param) members (sub, interner)
    let (result, interner) ← interner.union structuralHash perMember
    return (result, sub, interner)
  | .rewrite arm => applyArm apply ty arm (sub, interner)

namespace Substitution

/-- `Substitution::apply`. -/
def apply : Nat → Apply
  | 0, _, _ => none
  | fuel + 1, ty, (sub, interner) =>
    if FxHashMap.isEmpty sub.map then some (ty, sub, interner)
    else do
      -- when every mapped free parameter is blocked the substitution is the identity
      let (freeParams, sub, interner) ← sub.freeParamSummary interner ty
      if allInert sub.map sub.blocked freeParams then return (ty, sub, interner)
      -- re-entry wins over a completed result
      if ty ∈ sub.inProgress then
        return (ty, { sub with
          cycleEpoch := sub.cycleEpoch + 1
          frameReentered := insert ty sub.frameReentered }, interner)
      let key : MemoKey := (ty, sub.canonicalBlockedContext ty)
      let row ← interner.store.row ty
      match sub.completed.lookup key, sub.tainted.lookup key with
      | some result, _ => return (result, sub, interner)
      | none, entry =>
        match entry.filter sub.reusable with
        | some entry =>
          return (entry.result, { sub with
            cycleEpoch := sub.cycleEpoch + 1
            frameReentered := sub.frameReentered ∪ entry.reentered
            frameVisited := sub.frameVisited ∪ entry.visited
              ∪ (if row.canReenter then {ty} else ∅) }, interner)
        | none =>
          let (result, after, interner) ←
            applyRow structuralHash (apply fuel) ty row (sub.openFrame, interner)
          return (result, sub.closeFrame after key row.canReenter result, interner)

end Substitution

/-- `substitute_with_outcome`. -/
def substituteWithOutcome (fuel : Nat) (interner : Interner) (ty : TypeId)
    (map : FxHashMap TypeParamId TypeId) : Option (SubstitutionOutcome × Interner) :=
  substituteWith (Substitution.apply structuralHash fuel) interner ty map

/-- `substitute`. -/
def substitute (fuel : Nat) (interner : Interner) (ty : TypeId) (map : FxHashMap TypeParamId TypeId) :
    Option (TypeId × Interner) :=
  (substituteWithOutcome structuralHash fuel interner ty map).map
    (fun outcome => (outcome.1.result, outcome.2))

end Typokat.Types
