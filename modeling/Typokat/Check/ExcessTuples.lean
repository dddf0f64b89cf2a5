import Typokat.Check.ExcessProperties
import Typokat.Relate.TupleShape
import Typokat.Types.Intern

/-!
# Excess Properties in Tuples

The element of an array literal at a position is checked against the tuple's own list of elements,
at the same index.  The relation engine reads the tuple as elements before the rest, the element
that the rest repeats, and elements behind it.  The two agree on a literal that has no element for
the rest, and on no longer one.

## Main Results

- `collectExcessProperties_array`, `prepareTargets_array` : what both passes do with an array
- `getElem?_eq_elementAt` : the elements of a tuple without anything for its rest
- `array_literal_by_position_iff` : **which literals are checked position by position**
-/

namespace Typokat.Check.Excess

open Types Option List Nat
open Lib (Attempt)
open Relate (NumberText TupleShape tupleShape restTupleShape tupleShape_of_rest)

/-! ## §1 Lists with positions -/

section Positions

variable {A B : Type}

/-- Pair each entry with what a function of its position gives, if it gives something. -/
def pairAt (f : Nat → Option B) : List A → Nat → List (A × B)
  | [], _ => []
  | x :: xs, index => ((f index).map (fun b => (x, b))).toList ++ pairAt f xs (index + 1)

theorem zipIdx_filterMap_eq_pairAt (f : Nat → Option B) (xs : List A) (index : Nat) :
    (xs.zipIdx index).filterMap (fun entry => (f entry.2).map (fun b => (entry.1, b))) =
      pairAt f xs index := by
  induction xs generalizing index with
  | nil => rfl
  | cons x xs ih =>
    rw [zipIdx_cons, filterMap_cons, pairAt, ih]
    cases f index with
    | none => rfl
    | some b => rfl

theorem length_pairAt_le (f : Nat → Option B) (xs : List A) (index : Nat) :
    (pairAt f xs index).length ≤ xs.length := by
  induction xs generalizing index with
  | nil => exact le_rfl
  | cons x xs ih =>
    rw [pairAt, length_append, length_cons]
    have := ih (index + 1)
    cases f index with
    | none =>
      rw [map_none, toList_none, length_nil]
      omega
    | some b =>
      rw [map_some, toList_some, length_singleton]
      omega

theorem length_pairAt (f : Nat → Option B) (xs : List A) (index : Nat)
    (htotal : ∀ i < xs.length, (f (index + i)).isSome = true) :
    (pairAt f xs index).length = xs.length := by
  induction xs generalizing index with
  | nil => rfl
  | cons x xs ih =>
    obtain ⟨b, hb⟩ := isSome_iff_exists.mp (htotal 0 (succ_pos _))
    rw [add_zero] at hb
    have htail : ∀ i < xs.length, (f (index + 1 + i)).isSome = true := by
      intro i hi
      rw [add_right_comm, add_assoc]
      exact htotal (i + 1) (succ_lt_succ hi)
    rw [pairAt, hb, length_append, ih _ htail, length_cons]
    exact add_comm _ _

/-- Two ways to pair are the same when they agree at every position. -/
theorem pairAt_eq_iff (f g : Nat → Option B) (xs : List A) (index : Nat)
    (htotal : ∀ i < xs.length, (g (index + i)).isSome = true) :
    pairAt f xs index = pairAt g xs index ↔ ∀ i < xs.length, f (index + i) = g (index + i) := by
  induction xs generalizing index with
  | nil => simp [pairAt]
  | cons x xs ih =>
    have htail : ∀ i < xs.length, (g (index + 1 + i)).isSome = true := by
      intro i hi
      rw [add_right_comm, add_assoc]
      exact htotal (i + 1) (succ_lt_succ hi)
    have hcons : (∀ i < (x :: xs).length, f (index + i) = g (index + i)) ↔
        f index = g index ∧ ∀ i < xs.length, f (index + 1 + i) = g (index + 1 + i) := by
      constructor
      · intro h
        refine ⟨h 0 (succ_pos _), fun i hi => ?_⟩
        rw [add_right_comm, add_assoc]
        exact h (i + 1) (succ_lt_succ hi)
      · intro h i hi
        cases i with
        | zero => exact h.1
        | succ i =>
          have := h.2 i (lt_of_succ_lt_succ hi)
          rwa [add_right_comm, add_assoc] at this
    obtain ⟨b, hb⟩ := isSome_iff_exists.mp (htotal 0 (succ_pos _))
    rw [add_zero] at hb
    rw [hcons, ← ih (index + 1) htail, pairAt, pairAt, hb]
    cases hf : f index with
    | none =>
      -- an entry without a partner makes the list too short
      constructor
      · intro heq
        have hlength := congrArg length heq
        have hle := length_pairAt_le f xs (index + 1)
        rw [length_append, length_append, length_pairAt g xs _ htail] at hlength
        rw [map_none, map_some, toList_none, toList_some, length_nil, length_singleton] at hlength
        omega
      · intro h
        cases h.1
    | some b' =>
      rw [map_some, map_some, toList_some, toList_some, singleton_append, singleton_append,
        cons.injEq, Prod.mk.injEq, some.injEq]
      simp only [true_and]

end Positions

/-! ## §2 What the passes do with an array -/

section Passes

variable {text : NumberText} {store : Store} {normalized : FxHashMap TypeId TypeId}

variable (elements : List ArrayElement)

theorem checkTupleElements_eq (index : Nat) (tuple : TupleType) :
    checkTupleElements text store normalized elements index tuple =
      ((elements.zipIdx index).filterMap (fun entry => entry.1.asExpression.bind
        (fun expression => (tuple.elements[entry.2]?).map (fun child =>
          (expression, child))))).flatMap (fun child =>
        collectExcessProperties text store normalized child.1
          (excessRecursionTarget store child.2)) := by
  induction elements generalizing index with
  | nil => rfl
  | cons element rest ih =>
    rw [zipIdx_cons, filterMap_cons]
    cases element with
    | expression expression =>
      rw [checkTupleElements, ih, ArrayElement.asExpression, bind_some]
      cases tuple.elements[index]? with
      | none => rfl
      | some child => rfl
    | spread =>
      rw [checkTupleElements, ih]
      rfl
    | elision =>
      rw [checkTupleElements, ih]
      rfl

theorem checkArrayElements_eq (element : TypeId) :
    checkArrayElements text store normalized elements (excessRecursionTarget store element) =
      (elements.filterMap (fun entry => entry.asExpression.map (fun expression =>
        (expression, element)))).flatMap (fun child =>
        collectExcessProperties text store normalized child.1
          (excessRecursionTarget store child.2)) := by
  induction elements with
  | nil => rfl
  | cons entry rest ih =>
    rw [filterMap_cons]
    cases entry with
    | expression expression =>
      rw [checkArrayElements, ih]
      rfl
    | spread => rw [checkArrayElements, ih]; rfl
    | elision => rw [checkArrayElements, ih]; rfl

/-- **An array literal is checked child by child.** -/
theorem collectExcessProperties_array (ty : TypeId) :
    collectExcessProperties text store normalized (.array elements) ty =
      (arrayChildren store (walkTarget store normalized ty) elements).flatMap (fun child =>
        collectExcessProperties text store normalized child.1
          (excessRecursionTarget store child.2)) := by
  rw [collectExcessProperties]
  unfold arrayChildren
  cases store.tupleType (walkTarget store normalized ty) with
  | some tuple => exact checkTupleElements_eq elements 0 tuple
  | none =>
    cases store.arrayType (walkTarget store normalized ty) with
    | some element => exact checkArrayElements_eq elements element
    | none => rfl

variable {S Exhaustion : Type} {pass : PreparationPass S Exhaustion} {fuel : Nat}

/-- Prepare the children of a literal one after the other. -/
def prepareChildren (text : NumberText) (pass : PreparationPass S Exhaustion) (fuel : Nat) :
    List (Expression × TypeId) → Preparation S Exhaustion Unit
  | [] => pure ()
  | child :: rest => do
    prepareTargets text pass fuel child.1 child.2
    prepareChildren text pass fuel rest

theorem prepareTupleElements_eq (index : Nat) (tuple : TupleType) :
    prepareTupleElements text pass fuel elements index tuple =
      prepareChildren text pass fuel ((elements.zipIdx index).filterMap (fun entry =>
        entry.1.asExpression.bind (fun expression =>
          (tuple.elements[entry.2]?).map (fun child => (expression, child))))) := by
  induction elements generalizing index with
  | nil => rfl
  | cons element rest ih =>
    rw [zipIdx_cons, filterMap_cons]
    cases element with
    | expression expression =>
      rw [prepareTupleElements, ih, ArrayElement.asExpression, bind_some]
      cases tuple.elements[index]? with
      | none => rfl
      | some child => rfl
    | spread =>
      rw [prepareTupleElements, ih]
      rfl
    | elision =>
      rw [prepareTupleElements, ih]
      rfl

theorem prepareArrayElements_eq (element : TypeId) :
    prepareArrayElements text pass fuel elements element =
      prepareChildren text pass fuel (elements.filterMap (fun entry =>
        entry.asExpression.map (fun expression => (expression, element)))) := by
  induction elements with
  | nil => rfl
  | cons entry rest ih =>
    rw [filterMap_cons]
    cases entry with
    | expression expression =>
      rw [prepareArrayElements, ih]
      rfl
    | spread => rw [prepareArrayElements, ih]; rfl
    | elision => rw [prepareArrayElements, ih]; rfl

/-- **An array literal is prepared child by child**, the children being those of the check. -/
theorem prepareTargets_array (ty : TypeId) :
    prepareTargets text pass fuel (.array elements) ty =
      withTarget pass fuel ty (fun store target =>
        prepareChildren text pass fuel (arrayChildren store target elements)) := by
  rw [prepareTargets]
  congr 1
  funext store target
  unfold arrayChildren
  cases store.tupleType target with
  | some tuple => exact prepareTupleElements_eq elements 0 tuple
  | none =>
    cases store.arrayType target with
    | some element => exact prepareArrayElements_eq elements element
    | none => rfl

end Passes

/-! ## §3 Elements by position -/

section Shapes

variable {store : Store} {tuple : TupleType} {shape : TupleShape} {fuel : Nat}

/-- An accepted literal is never shorter than the tuple's own list. -/
theorem length_le_of_acceptsLen (hshape : tupleShape store fuel tuple = some shape) {len : Nat}
    (haccepts : shape.acceptsLen len = true) : tuple.elements.length ≤ len := by
  have hmin := (TupleShape.acceptsLen_iff.mp haccepts).1
  refine le_trans ?_ hmin
  cases fuel with
  | zero => cases hshape
  | succ fuel =>
    cases hrest : tuple.rest with
    | none =>
      rw [tupleShape, hrest, some.injEq] at hshape
      rw [← hshape]
      exact le_add_right _ _
    | some rest =>
      rw [tupleShape_of_rest hrest] at hshape
      split at hshape
      · cases hshape
      · obtain ⟨restShape, -, rfl⟩ := map_eq_some_iff.mp hshape
        unfold TupleShape.minLen
        rw [length_append, length_append, length_take, length_drop]
        omega

/-- **The elements of a tuple without anything for its rest** are those of its own list. -/
theorem getElem?_eq_elementAt (hshape : tupleShape store fuel tuple = some shape)
    (haccepts : shape.acceptsLen tuple.elements.length = true) {index : Nat}
    (hindex : index < tuple.elements.length) :
    tuple.elements[index]? = shape.elementAt index tuple.elements.length := by
  cases fuel with
  | zero => cases hshape
  | succ fuel =>
    cases hrest : tuple.rest with
    | none =>
      rw [tupleShape, hrest, some.injEq] at hshape
      subst hshape
      exact (TupleShape.elementAt_of_lt haccepts hindex hindex).symm
    | some rest =>
      rw [tupleShape_of_rest hrest] at hshape
      split at hshape
      · cases hshape
      · rename_i hposition
        rw [not_lt] at hposition
        obtain ⟨restShape, -, rfl⟩ := map_eq_some_iff.mp hshape
        have hmin := (TupleShape.acceptsLen_iff.mp haccepts).1
        unfold TupleShape.minLen at hmin
        rw [length_append, length_append, length_take, length_drop, min_eq_left hposition] at hmin
        -- the shape of the rest adds nothing
        have hfront : restShape.prefixElements = [] := eq_nil_of_length_eq_zero (by omega)
        have hsuffix : restShape.suffix = [] := eq_nil_of_length_eq_zero (by omega)
        have htake : (tuple.elements.take rest.position ++ restShape.prefixElements).length =
            rest.position := by
          rw [hfront, append_nil, length_take, min_eq_left hposition]
        by_cases hbefore : index < rest.position
        · rw [TupleShape.elementAt_of_lt haccepts hindex (by rw [htake]; exact hbefore)]
          rw [hfront, append_nil, getElem?_take_of_lt hbefore]
        · rw [not_lt] at hbefore
          rw [TupleShape.elementAt_of_ge haccepts hindex (by rw [htake]; exact hbefore)]
          rw [hsuffix, nil_append, length_drop, if_pos (by omega), getElem?_drop]
          congr 1
          omega

/-- The elements of a literal, each with the type of its position. -/
def positionalChildren (shape : TupleShape) (expressions : List Expression) :
    List (Expression × TypeId) :=
  expressions.zipIdx.filterMap (fun entry =>
    (shape.elementAt entry.2 expressions.length).map (fun child => (entry.1, child)))

/-- A literal without spreads and holes. -/
def arrayLiteral (expressions : List Expression) : List ArrayElement :=
  expressions.map .expression

theorem arrayChildren_arrayLiteral {target : TypeId} (hrow : store.tupleType target = some tuple)
    (expressions : List Expression) :
    arrayChildren store target (arrayLiteral expressions) =
      pairAt (fun index => tuple.elements[index]?) expressions 0 := by
  rw [← zipIdx_filterMap_eq_pairAt]
  unfold arrayChildren arrayLiteral
  rw [hrow]
  dsimp only
  rw [zipIdx_map, filterMap_map]
  rfl

/-- **Which literals are checked position by position.**  Both passes go through the children of
    the literal; these are its elements with the types of their positions exactly when the literal
    is not longer than the tuple's own list of elements. -/
theorem array_literal_by_position_iff (text : NumberText) {target : TypeId}
    (hrow : store.tupleType target = some tuple) (hshape : tupleShape store fuel tuple = some shape)
    (expressions : List Expression) (haccepts : shape.acceptsLen expressions.length = true) :
    (∀ (normalized : FxHashMap TypeId TypeId) (ty : TypeId),
      walkTarget store normalized ty = target →
      collectExcessProperties text store normalized (.array (arrayLiteral expressions)) ty =
        (arrayChildren store target (arrayLiteral expressions)).flatMap (fun child =>
          collectExcessProperties text store normalized child.1
            (excessRecursionTarget store child.2))) ∧
    (∀ (S Exhaustion : Type) (pass : PreparationPass S Exhaustion) (levels : Nat) (ty : TypeId),
      prepareTargets text pass levels (.array (arrayLiteral expressions)) ty =
        withTarget pass levels ty (fun store target => prepareChildren text pass levels
          (arrayChildren store target (arrayLiteral expressions)))) ∧
    (arrayChildren store target (arrayLiteral expressions) = positionalChildren shape expressions ↔
      expressions.length ≤ tuple.elements.length) := by
  refine ⟨?_, ?_, ?_⟩
  · intro normalized ty htarget
    rw [collectExcessProperties_array, htarget]
  · intro S Exhaustion pass levels ty
    exact prepareTargets_array _ _
  · have htotal : ∀ i < expressions.length,
        (shape.elementAt (0 + i) expressions.length).isSome = true := by
      intro i hi
      obtain ⟨ty, hty⟩ := TupleShape.exists_elementAt haccepts hi
      rw [zero_add, hty]
      rfl
    have hlength := length_le_of_acceptsLen hshape haccepts
    unfold positionalChildren
    rw [arrayChildren_arrayLiteral hrow,
      zipIdx_filterMap_eq_pairAt (fun index => shape.elementAt index expressions.length),
      pairAt_eq_iff _ _ _ _ htotal]
    simp only [zero_add]
    constructor
    · intro h
      by_contra hlonger
      rw [not_le] at hlonger
      -- the first position behind the tuple's own list has a type in the shape only
      have hmissing := h _ hlonger
      obtain ⟨ty, hty⟩ := TupleShape.exists_elementAt haccepts hlonger
      rw [hty, getElem?_eq_none le_rfl] at hmissing
      cases hmissing
    · intro hle i hi
      have heq : expressions.length = tuple.elements.length := le_antisymm hle hlength
      rw [heq] at haccepts hi ⊢
      exact getElem?_eq_elementAt hshape haccepts hi

end Shapes

/-! ## §4 A tuple with a rest in the middle -/

/-- The objects `{a: number}`, `{b: number}` and `{c: number}` (19 to 21), an array
    of the second one (22), and the tuple of the first, the array as its rest, and the third (23). -/
def middleRestStore : Store :=
  let store := (Interner.withIntrinsics (fun _ => 0)).store
  let object (key : String) : ObjectType := { properties := [{ key := .string key, ty := 8 }] }
  let store := (store.pushObject (object "a") .empty).2
  let store := (store.pushObject (object "b") .empty).2
  let store := (store.pushObject (object "c") .empty).2
  let store := (store.pushArray 20 .empty).2
  (store.pushTuple ⟨[19, 21], some ⟨1, 22⟩⟩ .empty).2

/-- An object literal with one key. -/
def keyed (name : String) (start : Nat) : Expression :=
  .object [.property (some name) ⟨start, start + 1⟩ .other]

/-- No key is parsed as a number. -/
def wordsOnly : NumberText := ⟨fun _ => "", fun _ => "", fun _ => none⟩

/-- What a literal for the tuple reports by position. -/
def reportedByPosition (expressions : List Expression) : List String :=
  ((tupleShape middleRestStore 2 ⟨[19, 21], some ⟨1, 22⟩⟩).map (fun shape =>
    ((positionalChildren shape expressions).flatMap (fun child =>
      collectExcessProperties wordsOnly middleRestStore ∅ child.1 child.2)).map
      (fun diagnostic => diagnostic.name))).getD []

/-- What the check reports. -/
def reported (expressions : List Expression) : List String :=
  (collectExcessProperties wordsOnly middleRestStore ∅ (.array (arrayLiteral expressions)) 23).map
    (fun diagnostic => diagnostic.name)

/-- **A literal with an element for the rest.**  Each element of the first literal fits its position,
    and the second one is reported; the last two elements of the second literal do not, and neither
    is reported. -/
theorem array_literal_shifted :
    (tupleShape middleRestStore 2 ⟨[19, 21], some ⟨1, 22⟩⟩).map (fun shape =>
      shape.acceptsLen 3) = some true ∧
    reportedByPosition [keyed "a" 1, keyed "b" 3, keyed "c" 5] = [] ∧
    reported [keyed "a" 1, keyed "b" 3, keyed "c" 5] = ["b"] ∧
    reportedByPosition [keyed "a" 1, keyed "c" 3, keyed "x" 5] = ["c", "x"] ∧
    reported [keyed "a" 1, keyed "c" 3, keyed "x" 5] = [] := by
  decide +kernel

/-- Without an element for the rest the literal is checked position by position. -/
theorem array_literal_by_position_iff_short :
    arrayChildren middleRestStore 23 (arrayLiteral [keyed "a" 1, keyed "c" 3]) =
      positionalChildren ⟨[19], some 20, [21]⟩ [keyed "a" 1, keyed "c" 3] := by
  have hshape : tupleShape middleRestStore 2 ⟨[19, 21], some ⟨1, 22⟩⟩ =
      some ⟨[19], some 20, [21]⟩ := by decide +kernel
  have hrow : middleRestStore.tupleType 23 = some ⟨[19, 21], some ⟨1, 22⟩⟩ := by decide +kernel
  exact (array_literal_by_position_iff wordsOnly hrow hshape [keyed "a" 1, keyed "c" 3]
    (by decide)).2.2.mpr (by decide)

end Typokat.Check.Excess
