import Typokat.Query.State
import Typokat.Types.Arena

/-!
# Semantic Identity (`typokat-check/src/check/query/mod.rs`)

Two types are compared row by row, up to the names of the type parameters that the compared
signatures bind.  The comparison keeps the bound parameters in pairs, and it visits every pair
of types once for the binders that are visible there.

The rows that are compared here need no projection or evaluation: the plan normalizes none of
them and has no demand for them, so the comparison is decided in its first attempt.  The other
rows are left to the planner.

## Main Definitions

- `alphaTypeParamsIdentical` : the test of two type parameters
- `identicalAttempt` : the comparison
- `isIdentical` : the comparison behind the memo of completed pairs
-/

namespace Typokat.Query

open Types

/-! ## §1 Binders -/

/-- `alpha_binders`, the innermost pair first. -/
abbrev AlphaBinders := List (TypeParamId × TypeParamId)

/-- The binders with their sides exchanged. -/
def AlphaBinders.flip (binders : AlphaBinders) : AlphaBinders := binders.map Prod.swap

/-- What the innermost binder of a parameter is paired with (`find_map`). -/
def AlphaBinders.boundTo (binders : AlphaBinders) (param : TypeParamId) : Option TypeParamId :=
  (binders.find? (fun pair => pair.1 == param)).map Prod.snd

/-- `alpha_type_params_identical`. -/
def alphaTypeParamsIdentical (left right : TypeParamId) (binders : AlphaBinders) : Bool :=
  match binders.boundTo left, binders.flip.boundTo right with
  | some mapped, _ => mapped == right
  | none, some _ => false
  | none, none => left == right

/-- The pairs with the innermost binder of each parameter, apart from those that were seen. -/
def innermostPairs : AlphaBinders → FxHashSet TypeParamId → FxHashSet (TypeParamId × TypeParamId)
  | [], _ => ∅
  | pair :: rest, seen =>
    if pair.1 ∈ seen then innermostPairs rest seen
    else insert pair (innermostPairs rest (insert pair.1 seen))

/-- `AlphaBinderKey`; the vectors are sorted and without repetition, so they are sets. -/
structure AlphaBinderKey where
  forward : FxHashSet (TypeParamId × TypeParamId)
  reverse : FxHashSet (TypeParamId × TypeParamId)
  deriving DecidableEq

/-- `alpha_binder_key`. -/
def alphaBinderKey (binders : AlphaBinders) : AlphaBinderKey where
  forward := innermostPairs binders ∅
  reverse := innermostPairs binders.flip ∅

/-! ## §2 Rows -/

/-- One step of the comparison of two rows: whether what the rows carry themselves is the same,
    and the types to compare then. -/
structure Comparison where
  same : Bool
  types : List (Option TypeId × Option TypeId)

/-- The comparison of one type on each side. -/
def Comparison.both (left right : TypeId) : Comparison := ⟨true, [(some left, some right)]⟩

/-- The comparison of an optional type on each side (`identical_optional`). -/
def Comparison.optional (left right : Option TypeId) : Comparison := ⟨true, [(left, right)]⟩

def propertyComparison (left right : PropertyType) : Comparison where
  same := left.key == right.key && left.optional == right.optional
    && left.visibility == right.visibility
    && (left.visibility == .publicAccess || left.declaringClass == right.declaringClass)
    && left.readonly == right.readonly && left.isAccessor == right.isAccessor
  types := [(some left.ty, some right.ty), (left.writeTy, right.writeTy)]

def parameterComparison (left right : ParameterType) : Comparison where
  same := left.optional == right.optional && left.hasDefault == right.hasDefault
    && left.rest == right.rest
  types := [(some left.ty, some right.ty)]

/-- The steps for two objects, unless their counts differ. -/
def objectComparisons (left right : ObjectType) : Option (List Comparison) :=
  if left.properties.length != right.properties.length
      || left.callSignatures.length != right.callSignatures.length
      || left.constructSignatures.length != right.constructSignatures.length then none
  else some (
    List.zipWith propertyComparison left.properties right.properties
      ++ List.zipWith Comparison.both left.callSignatures right.callSignatures
      ++ List.zipWith Comparison.both left.constructSignatures right.constructSignatures
      ++ [.optional left.stringIndex right.stringIndex,
        .optional left.numberIndex right.numberIndex])

/-- The steps for two functions, unless their counts differ.  Names do not matter. -/
def functionComparisons (left right : FunctionType) : Option (List Comparison) :=
  if left.typeParams.length != right.typeParams.length
      || left.params.length != right.params.length then none
  else some (
    (left.typeParams.zip right.typeParams).flatMap (fun pair =>
        [.optional pair.1.constraint pair.2.constraint, .optional pair.1.default pair.2.default])
      ++ [.optional left.receiver right.receiver]
      ++ List.zipWith parameterComparison left.params right.params
      ++ [.both left.ret right.ret])

/-- The step for two tuples: the lengths and the position of the rest come first. -/
def tupleComparison (left right : TupleType) : Comparison where
  same := left.elements.length == right.elements.length
    && left.rest.map (fun rest => rest.position) == right.rest.map (fun rest => rest.position)
  types := (left.elements.zip right.elements).map (fun pair => (some pair.1, some pair.2))
    ++ [(left.rest.map (fun rest => rest.ty), right.rest.map (fun rest => rest.ty))]

/-- The rows that need no planning. -/
def unplanned : Row → Bool
  | .intrinsic _ | .literal _ | .typeParam _ | .object _ | .function _ | .array _ | .tuple _
  | .readonly _ => true
  | _ => false

/-- The steps for two rows of one kind; there are none for rows that are only identical to
    themselves. -/
def rowComparisons : Row → Row → Option (List Comparison)
  | .object left, .object right => objectComparisons left right
  | .function left, .function right => functionComparisons left right
  | .array left, .array right => some [.both left right]
  | .tuple left, .tuple right => some [tupleComparison left right]
  | .readonly left, .readonly right => some [.both left right]
  | _, _ => none

/-- The binders inside of two rows; functions push theirs in order. -/
def rowBinders : Row → Row → AlphaBinders → AlphaBinders
  | .function left, .function right, binders =>
    (List.zipWith (fun left right => (left.id, right.id)) left.typeParams
      right.typeParams).reverse ++ binders
  | _, _, binders => binders

/-- The rows whose comparison can be resumed (`identical_sequence`). -/
def resumed : Row → Bool
  | .object _ | .function _ => true
  | _ => false

/-! ## §3 The comparison -/

/-- The pair that is compared and the binders around it. -/
abbrev IdentityProgressKey := TypeId × TypeId × AlphaBinderKey

/-- `IdentitySequenceProgress`. -/
structure IdentitySequenceProgress where
  cursor : Nat := 0
  recheck : List Nat := []

/-- The visited pairs (`IdentitySeen`) with the `IdentityRetryState`. -/
structure IdentityState where
  seen : FxHashSet IdentityProgressKey := ∅
  sequences : FxHashMap IdentityProgressKey IdentitySequenceProgress := ∅
  coinductiveEpoch : Nat := 0

/-- The next epoch, a saturating `u64`. -/
def IdentityState.meet (state : IdentityState) : IdentityState :=
  { state with coinductiveEpoch := min (state.coinductiveEpoch + 1) (2 ^ 64 - 1) }

/-- Compare types in order, up to the first that differ. -/
def identicalTypes (attempt : TypeId → TypeId → IdentityState → Option (Bool × IdentityState)) :
    List (Option TypeId × Option TypeId) → IdentityState → Option (Bool × IdentityState)
  | [], state => some (true, state)
  | (some left, some right) :: rest, state =>
    (attempt left right state).bind (fun (same, state) =>
      if same then identicalTypes attempt rest state else some (false, state))
  | (none, none) :: rest, state => identicalTypes attempt rest state
  | _ :: _, state => some (false, state)

/-- Compare one step. -/
def identicalStep (attempt : TypeId → TypeId → IdentityState → Option (Bool × IdentityState))
    (step : Comparison) (state : IdentityState) : Option (Bool × IdentityState) :=
  if step.same then identicalTypes attempt step.types state else some (false, state)

/-- Compare steps in order, up to the first that differs. -/
def identicalSteps (compare : Comparison → IdentityState → Option (Bool × IdentityState)) :
    List Comparison → IdentityState → Option (Bool × IdentityState)
  | [], state => some (true, state)
  | step :: rest, state =>
    (compare step state).bind (fun (same, state) =>
      if same then identicalSteps compare rest state else some (false, state))

section Sequence

variable (compare : Nat → IdentityState → Option (Bool × IdentityState))

/-- The steps to look at again; one that meets no visited pair is done with. -/
def recheckSteps : List Nat → IdentitySequenceProgress → IdentityState →
    Option (Bool × IdentitySequenceProgress × IdentityState)
  | [], progress, state => some (true, progress, state)
  | index :: rest, progress, state =>
    (compare index state).bind (fun (same, after) =>
      if same then
        recheckSteps rest
          (if after.coinductiveEpoch = state.coinductiveEpoch then
            { progress with recheck := progress.recheck.filter (fun other => other != index) }
          else progress) after
      else some (false, progress, after))

/-- The steps from the cursor on. -/
def advanceSteps : Nat → IdentitySequenceProgress → IdentityState →
    Option (Bool × IdentitySequenceProgress × IdentityState)
  | 0, progress, state => some (true, progress, state)
  | remaining + 1, progress, state =>
    (compare progress.cursor state).bind (fun (same, after) =>
      if same then
        advanceSteps remaining
          { cursor := progress.cursor + 1
            recheck :=
              if after.coinductiveEpoch = state.coinductiveEpoch then progress.recheck
              else progress.recheck ++ [progress.cursor] } after
      else some (false, progress, after))

/-- `identical_sequence`: the progress is kept for the key, whatever the outcome. -/
def identicalSequence (key : IdentityProgressKey) (len : Nat) (state : IdentityState) :
    Option (Bool × IdentityState) :=
  let progress := (state.sequences.lookup key).getD {}
  let keep := fun (progress : IdentitySequenceProgress) (state : IdentityState) =>
    { state with sequences := state.sequences.insert key progress }
  (recheckSteps compare progress.recheck progress state).bind (fun (same, progress, state) =>
    if same then
      (advanceSteps compare (len - progress.cursor) progress state).map
        (fun (same, progress, state) => (same, keep progress state))
    else some (false, keep progress state))

end Sequence

/-- The step with an index; `none` for the panic of an index that is out of range. -/
def identicalAt (compare : Comparison → IdentityState → Option (Bool × IdentityState))
    (steps : List Comparison) (index : Nat) (state : IdentityState) :
    Option (Bool × IdentityState) :=
  (steps[index]?).bind (fun step => compare step state)

/-- `identical_retry_attempt`: `none` while the call has not returned after `fuel` nested calls,
    for an id that is out of range, and for rows that are planned. -/
def identicalAttempt (store : Store) :
    Nat → TypeId → TypeId → AlphaBinders → IdentityState → Option (Bool × IdentityState)
  | 0, _, _, _, _ => none
  | fuel + 1, left, right, binders, state =>
    match store.row left, store.row right with
    | some (.typeParam leftParam), some (.typeParam rightParam) =>
      some (alphaTypeParamsIdentical leftParam.id rightParam.id binders, state)
    | some leftRow, some rightRow =>
      if left == right then some (true, state)
      else if !(unplanned leftRow && unplanned rightRow) then none
      else
        let progressKey := (left, right, alphaBinderKey binders)
        if progressKey ∈ state.seen then some (true, state.meet)
        else
          let state := { state with seen := insert progressKey state.seen }
          match rowComparisons leftRow rightRow with
          | none => some (false, state)
          | some steps =>
            let inner := rowBinders leftRow rightRow binders
            let compare := identicalStep (fun left right state =>
              identicalAttempt store fuel left right inner state)
            if resumed leftRow then
              identicalSequence (identicalAt compare steps) (left, right, alphaBinderKey inner)
                steps.length state
            else identicalSteps compare steps state
    | _, _ => none

/-- `completed_identity_key`. -/
def completedIdentityKey (left right : TypeId) : CompletedIdentityKey :=
  if left ≤ right then (left, right) else (right, left)

/-- `is_identical` over the memo of completed pairs; nothing is planned, so every answer is
    kept. -/
def isIdentical (store : Store) (fuel : Nat) (left right : TypeId)
    (completed : FxHashMap CompletedIdentityKey Bool) :
    Option (Bool × FxHashMap CompletedIdentityKey Bool) :=
  if left == right then some (true, completed)
  else
    match completed.lookup (completedIdentityKey left right) with
    | some identical => some (identical, completed)
    | none =>
      (identicalAttempt store fuel left right [] {}).map (fun (identical, _) =>
        (identical, completed.insert (completedIdentityKey left right) identical))

end Typokat.Query
