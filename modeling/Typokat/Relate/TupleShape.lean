import Typokat.Types.Store

/-!
# The Shape of a Tuple (`typokat-relate/src/relate/relation/collections.rs`)

A tuple keeps its fixed elements in one list, with the position of its rest beside it.  The
relation engine flattens it into elements before the rest, the element the rest repeats, and
elements after it; a rest that is a tuple itself is spliced in.

An element before the rest has one position.  Behind the rest a position belongs to an
element of every tuple that is long enough, and those are the repeated element and the first
elements after the rest.

## Main Results

- `TupleShape.mem_typesAt` : the types that one position takes over all lengths
- `tupleShape_prefix` : the fixed elements before a rest come first
-/

namespace Typokat.Relate

open Types

/-! ## §1 Shapes -/

/-- A flattened tuple. -/
structure TupleShape where
  prefixElements : List TypeId
  variadic : Option TypeId
  suffix : List TypeId
  deriving DecidableEq, Repr

namespace TupleShape

def fixed (elements : List TypeId) : TupleShape := ⟨elements, none, []⟩

variable (shape : TupleShape)

def minLen : Nat := shape.prefixElements.length + shape.suffix.length

def fixedLen : Option Nat :=
  if shape.variadic.isSome then none else some (shape.prefixElements.length + shape.suffix.length)

def acceptsLen (len : Nat) : Bool :=
  if len < shape.minLen then false else shape.variadic.isSome || len == shape.minLen

def elementAt (index len : Nat) : Option TypeId :=
  if !shape.acceptsLen len || index ≥ len then none
  else if index < shape.prefixElements.length then shape.prefixElements[index]?
  else
    let suffixStart := len - shape.suffix.length
    if index ≥ suffixStart then shape.suffix[index - suffixStart]? else shape.variadic

/-- The types that a position takes, over all lengths. -/
def typesAt (index : Nat) : List TypeId :=
  if index < shape.prefixElements.length then shape.prefixElements[index]?.toList
  else
    match shape.variadic with
    | none => shape.suffix[index - shape.prefixElements.length]?.toList
    | some element => element :: shape.suffix.take (index - shape.prefixElements.length + 1)

end TupleShape

/-! ## §2 Flattening -/

/-- `tuple_shape`, with `rest_tuple_shape` in it; `none` also when the nesting is deeper than
    `fuel`. -/
def tupleShape (store : Store) : Nat → TupleType → Option TupleShape
  | 0, _ => none
  | fuel + 1, tuple =>
    match tuple.rest with
    | none => some (.fixed tuple.elements)
    | some rest =>
      if rest.position > tuple.elements.length then none
      else
        let ty := (store.readonlyOperand rest.ty).getD rest.ty
        let restShape : Option TupleShape :=
          match store.arrayType ty with
          | some element => some ⟨[], some element, []⟩
          | none => (store.tupleType ty).bind (tupleShape store fuel)
        restShape.map (fun restShape =>
          { prefixElements := tuple.elements.take rest.position ++ restShape.prefixElements
            variadic := restShape.variadic
            suffix := restShape.suffix ++ tuple.elements.drop rest.position })

/-- `rest_tuple_shape`: the shape of the rest itself. -/
def restTupleShape (store : Store) (fuel : Nat) (ty : TypeId) : Option TupleShape :=
  let ty := (store.readonlyOperand ty).getD ty
  match store.arrayType ty with
  | some element => some ⟨[], some element, []⟩
  | none => (store.tupleType ty).bind (tupleShape store fuel)

theorem tupleShape_of_rest {store : Store} {tuple : TupleType} {rest : TupleRestType}
    (hrest : tuple.rest = some rest) (fuel : Nat) :
    tupleShape store (fuel + 1) tuple =
      if rest.position > tuple.elements.length then none
      else (restTupleShape store fuel rest.ty).map (fun restShape =>
        { prefixElements := tuple.elements.take rest.position ++ restShape.prefixElements
          variadic := restShape.variadic
          suffix := restShape.suffix ++ tuple.elements.drop rest.position }) := by
  rw [tupleShape, hrest]
  rfl

/-! ## §3 What a position can be -/

namespace TupleShape

variable {shape : TupleShape} {index len : Nat} {ty : TypeId}

theorem acceptsLen_iff : shape.acceptsLen len = true ↔
    shape.minLen ≤ len ∧ (shape.variadic = none → len = shape.minLen) := by
  unfold acceptsLen
  by_cases h : len < shape.minLen
  · rw [if_pos h]
    constructor
    · intro hfalse
      cases hfalse
    · intro hle
      omega
  · rw [if_neg h]
    cases shape.variadic with
    | none =>
      rw [Option.isSome_none, Bool.false_or, beq_iff_eq]
      constructor
      · intro heq
        exact ⟨by omega, fun _ => heq⟩
      · intro hlen
        exact hlen.2 rfl
    | some element =>
      rw [Option.isSome_some, Bool.true_or]
      constructor
      · intro _
        exact ⟨by omega, fun hnone => absurd hnone (by simp)⟩
      · intro _
        rfl

/-- An element before the rest. -/
theorem elementAt_of_lt (haccepts : shape.acceptsLen len = true) (hindex : index < len)
    (h : index < shape.prefixElements.length) :
    shape.elementAt index len = shape.prefixElements[index]? := by
  unfold elementAt
  rw [haccepts, if_neg (by simpa using hindex), if_pos h]

/-- Behind the elements before the rest. -/
theorem elementAt_of_ge (haccepts : shape.acceptsLen len = true) (hindex : index < len)
    (h : shape.prefixElements.length ≤ index) : shape.elementAt index len =
      if len ≤ index + shape.suffix.length then shape.suffix[index + shape.suffix.length - len]?
      else shape.variadic := by
  have hmin := (acceptsLen_iff.mp haccepts).1
  unfold minLen at hmin
  unfold elementAt
  rw [haccepts, if_neg (by simpa using hindex), if_neg (by omega)]
  by_cases hsuffix : len ≤ index + shape.suffix.length
  · rw [if_pos (by omega), if_pos hsuffix]
    congr 1
    omega
  · rw [if_neg (by omega), if_neg hsuffix]

/-- **The types of a position over all lengths.** -/
theorem mem_typesAt : ty ∈ shape.typesAt index ↔
    ∃ len, index < len ∧ shape.acceptsLen len = true ∧ shape.elementAt index len = some ty := by
  unfold typesAt
  by_cases h : index < shape.prefixElements.length
  · rw [if_pos h, Option.mem_toList]
    have hmin : shape.acceptsLen shape.minLen = true := acceptsLen_iff.mpr ⟨le_rfl, fun _ => rfl⟩
    constructor
    · intro hty
      have hlt : index < shape.minLen := by
        unfold minLen
        omega
      exact ⟨_, hlt, hmin, (elementAt_of_lt hmin hlt h).trans hty⟩
    · intro ⟨len, hlt, haccepts, hty⟩
      rw [← elementAt_of_lt haccepts hlt h]
      exact hty
  · rw [if_neg h]
    rw [not_lt] at h
    cases hvariadic : shape.variadic with
    | none =>
      rw [Option.mem_toList]
      constructor
      · intro hty
        have hbound := List.getElem?_eq_some_iff.mp hty
        obtain ⟨hbound, _⟩ := hbound
        have hmin : shape.acceptsLen shape.minLen = true :=
          acceptsLen_iff.mpr ⟨le_rfl, fun _ => rfl⟩
        have hlt : index < shape.minLen := by
          unfold minLen
          omega
        refine ⟨_, hlt, hmin, ?_⟩
        rw [elementAt_of_ge hmin hlt h]
        unfold minLen
        rw [if_pos (by omega), ← hty]
        congr 1
        omega
      · intro ⟨len, hlt, haccepts, hty⟩
        have hlen := (acceptsLen_iff.mp haccepts).2 hvariadic
        rw [elementAt_of_ge haccepts hlt h] at hty
        unfold minLen at hlen
        rw [if_pos (by omega)] at hty
        rw [← hty]
        congr 1
        omega
    | some element =>
      have haccepts : ∀ len, shape.minLen ≤ len → shape.acceptsLen len = true := by
        intro len hlen
        apply acceptsLen_iff.mpr
        refine ⟨hlen, ?_⟩
        rw [hvariadic]
        intro hnone
        cases hnone
      rw [List.mem_cons, List.mem_take_iff_getElem]
      constructor
      · intro hty
        rcases hty with rfl | ⟨i, hi, hty⟩
        · -- long enough for the rest to reach the position
          have hlen : shape.minLen ≤ index + shape.suffix.length + 1 := by
            unfold minLen
            omega
          refine ⟨_, by omega, haccepts _ hlen, ?_⟩
          rw [elementAt_of_ge (haccepts _ hlen) (by omega) h, if_neg (by omega), hvariadic]
        · -- the rest reaches up to the element
          rw [lt_min_iff] at hi
          have hlen : shape.minLen ≤ index + shape.suffix.length - i := by
            unfold minLen
            omega
          refine ⟨index + shape.suffix.length - i, by omega, haccepts _ hlen, ?_⟩
          rw [elementAt_of_ge (haccepts _ hlen) (by omega) h, if_pos (by omega),
            List.getElem?_eq_some_iff]
          refine ⟨by omega, ?_⟩
          rw [← hty]
          congr 1
          omega
      · intro ⟨len, hlt, haccepted, hty⟩
        have hmin := (acceptsLen_iff.mp haccepted).1
        unfold minLen at hmin
        rw [elementAt_of_ge haccepted hlt h] at hty
        by_cases hsuffix : len ≤ index + shape.suffix.length
        · right
          rw [if_pos hsuffix] at hty
          obtain ⟨hbound, hty⟩ := List.getElem?_eq_some_iff.mp hty
          exact ⟨index + shape.suffix.length - len, by omega, hty⟩
        · left
          rw [if_neg hsuffix, hvariadic, Option.some.injEq] at hty
          exact hty.symm

/-- Every position below an accepted length has an element. -/
theorem exists_elementAt (haccepts : shape.acceptsLen len = true) (hindex : index < len) :
    ∃ ty, shape.elementAt index len = some ty := by
  obtain ⟨hmin, hfixed⟩ := acceptsLen_iff.mp haccepts
  unfold minLen at hmin hfixed
  by_cases h : index < shape.prefixElements.length
  · exact ⟨_, (elementAt_of_lt haccepts hindex h).trans (List.getElem?_eq_getElem h)⟩
  · rw [elementAt_of_ge haccepts hindex (by omega)]
    by_cases hsuffix : len ≤ index + shape.suffix.length
    · rw [if_pos hsuffix]
      exact ⟨_, List.getElem?_eq_getElem (by omega)⟩
    · rw [if_neg hsuffix]
      cases hvariadic : shape.variadic with
      | some element => exact ⟨_, rfl⟩
      | none =>
        have := hfixed hvariadic
        omega

end TupleShape

/-- The fixed elements before a rest come first. -/
theorem tupleShape_prefix {store : Store} {fuel : Nat} {tuple : TupleType} {shape : TupleShape}
    (h : tupleShape store fuel tuple = some shape) {index : Nat}
    (hindex : index < tuple.elements.length)
    (hrest : ∀ rest, tuple.rest = some rest → index < rest.position) :
    index < shape.prefixElements.length ∧ shape.prefixElements[index]? = tuple.elements[index]? := by
  cases fuel with
  | zero => cases h
  | succ fuel =>
    unfold tupleShape at h
    cases hnone : tuple.rest with
    | none =>
      rw [hnone] at h
      cases h
      exact ⟨hindex, rfl⟩
    | some rest =>
      rw [hnone] at h
      have hlt := hrest rest hnone
      dsimp only at h
      split at h
      · cases h
      · obtain ⟨restShape, _, rfl⟩ := Option.map_eq_some_iff.mp h
        have hbound : index < (tuple.elements.take rest.position).length := by
          rw [List.length_take]
          omega
        constructor
        · rw [List.length_append]
          omega
        · rw [List.getElem?_append_left hbound, List.getElem?_take_of_lt hlt]

end Typokat.Relate
