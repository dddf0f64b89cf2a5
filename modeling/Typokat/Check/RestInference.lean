import Typokat.Relate.TupleShape
import Typokat.Types.History

/-!
# Inference against a Rest Parameter (`typokat-check/src/check/infer/mod.rs`)

A rest parameter takes the arguments behind the fixed parameters.  Inference looks for the
type that one of them is inferred against by walking down the nested tuples with the offset
of the argument and the number of arguments; the relation flattens the same tuples first and
reads the position in the flattened shape.

The walk lowers the offset by the elements before a rest, but passes the number of arguments
on as it is, without taking off the elements that the outer tuple has around the rest.  The
elements before a rest and the element that the rest repeats do not notice.  An element
behind a nested rest is looked for too far to the left, by the elements before the rests
around it, and an inner tuple is asked for it although it was counted by an outer one.

## Main Results

- `RestLayers.restInferenceTarget_eq` : inference walks over the layers of the nested tuples
- `RestLayers.walk_front`, `walk_repeated`, `walk_eq_some_iff` : where the walk ends
- `RestLayers.elementAt_shape` : what the relation reads, in the same terms
- `rest_inference_target_agrees_iff` : **when both are the same type**
-/

namespace Typokat.Check

open Types Option List
open Relate

/-! ## §1 The walk -/

/-- `tuple_inference_target`, over the walk into the rest. -/
def tupleInferenceTarget (restTarget : TypeId → Nat → Nat → Option (Option TypeId))
    (tuple : TupleType) (offset totalRestArgs : Nat) : Option (Option TypeId) :=
  match tuple.rest with
  | none => some tuple.elements[offset]?
  | some rest =>
    if offset < rest.position then some tuple.elements[offset]?
    else
      let fixedAfter := tuple.elements.length - rest.position
      let tailStart := totalRestArgs - fixedAfter
      if offset ≥ tailStart then some tuple.elements[rest.position + (offset - tailStart)]?
      else restTarget rest.ty (offset - rest.position) totalRestArgs

/-- `rest_inference_target`; the outer `none` when the nesting is deeper than the fuel. -/
def restInferenceTarget (store : Store) : Nat → TypeId → Nat → Nat → Option (Option TypeId)
  | 0, _, _, _ => none
  | fuel + 1, restTy, offset, totalRestArgs =>
    let restTy := (store.readonlyOperand restTy).getD restTy
    if store.tag restTy = some .typeParam then some none
    else
      match store.arrayType restTy with
      | some element => some (some element)
      | none =>
        match store.tupleType restTy with
        | some tuple =>
          tupleInferenceTarget (restInferenceTarget store fuel) tuple offset totalRestArgs
        | none => some (some restTy)

/-! ## §2 Nested rests as layers -/

/-- The fixed elements of a tuple, before and after its rest. -/
structure Layer where
  before : List TypeId
  after : List TypeId
  deriving DecidableEq, Repr

/-- What the innermost rest is: an array, or a tuple without a rest of its own. -/
inductive RestCore where
  | repeated (element : TypeId)
  | listed (elements : List TypeId)
  deriving DecidableEq, Repr

/-- A rest parameter's type: its tuples from the outside in, and what they end in. -/
structure RestLayers where
  layers : List Layer
  core : RestCore
  deriving DecidableEq, Repr

/-- The layers of a rest parameter's type. -/
def restLayers (store : Store) : Nat → TypeId → Option RestLayers
  | 0, ty =>
    (store.arrayType ((store.readonlyOperand ty).getD ty)).map (fun element =>
      ⟨[], .repeated element⟩)
  | fuel + 1, ty =>
    let ty := (store.readonlyOperand ty).getD ty
    match store.arrayType ty with
    | some element => some ⟨[], .repeated element⟩
    | none =>
      (store.tupleType ty).bind (fun tuple =>
        match tuple.rest with
        | none => some ⟨[], .listed tuple.elements⟩
        | some rest =>
          if rest.position > tuple.elements.length then none
          else (restLayers store fuel rest.ty).map (fun inner =>
            ⟨⟨tuple.elements.take rest.position, tuple.elements.drop rest.position⟩ :: inner.layers,
              inner.core⟩))

namespace RestLayers

/-- The elements before the rests, in the order of their positions. -/
def before (layers : List Layer) : List TypeId := layers.flatMap Layer.before

/-- The elements behind the rests, the last position first. -/
def backwards (layers : List Layer) : List TypeId :=
  layers.flatMap (fun layer => layer.after.reverse)

/-- The flattened shape. -/
def shape (nested : RestLayers) : TupleShape :=
  match nested.core with
  | .repeated element => ⟨before nested.layers, some element, (backwards nested.layers).reverse⟩
  | .listed elements =>
    ⟨before nested.layers ++ elements, none, (backwards nested.layers).reverse⟩

/-- The place is behind a rest that has fixed elements around it in an outer tuple. -/
def BehindEnclosed (nested : RestLayers) (back : Nat) : Prop :=
  ∃ outer layer inner, nested.layers = outer ++ layer :: inner ∧
    (backwards outer).length ≤ back ∧ back < (backwards outer).length + layer.after.length ∧
    (before outer ≠ [] ∨ backwards outer ≠ [])

/-- No tuple has enough elements behind its rest for the place, when the elements before the
    rests around it are counted again. -/
def PassedOver (layers : List Layer) (back : Nat) : Prop :=
  ∀ outer layer inner, layers = outer ++ layer :: inner →
    layer.after.length ≤ back + (before outer).length

/-- The type at the place that is reached by counting from the end of the first tuple that has
    enough elements, with the elements before the rests around it counted again; the element
    of the array when no tuple has enough. -/
def ShiftedTo (nested : RestLayers) (back : Nat) (ty : TypeId) : Prop :=
  (∃ outer layer inner, nested.layers = outer ++ layer :: inner ∧ PassedOver outer back ∧
    layer.after.reverse[back + (before outer).length]? = some ty) ∨
  (PassedOver nested.layers back ∧ nested.core = .repeated ty)

/-- The places that inference and the relation read the same type at. -/
def Aligned (nested : RestLayers) (back : Nat) : Prop :=
  ¬ nested.BehindEnclosed back ∨
    ∃ ty, nested.ShiftedTo back ty ∧ (backwards nested.layers)[back]? = some ty

end RestLayers

/-! ## §3 The walk over the layers -/

namespace RestLayers

/-- The walk of `restInferenceTarget` on layers. -/
def walk (core : RestCore) (total : Nat) : List Layer → Nat → Option TypeId
  | [], offset =>
    match core with
    | .repeated element => some element
    | .listed elements => elements[offset]?
  | layer :: inner, offset =>
    if offset < layer.before.length then layer.before[offset]?
    else if total - 1 - offset < layer.after.length then layer.after.reverse[total - 1 - offset]?
    else walk core total inner (offset - layer.before.length)

/-- The elements that have a fixed position: those before the rests, and those of a core
    without a rest. -/
def front (nested : RestLayers) : List TypeId :=
  match nested.core with
  | .repeated _ => before nested.layers
  | .listed elements => before nested.layers ++ elements

variable {nested : RestLayers} {layer : Layer} {layers inner outer : List Layer} {core : RestCore}
variable {store : Store} {fuel back offset total : Nat} {ty : TypeId}

@[simp] theorem before_nil : before [] = [] := rfl

@[simp] theorem backwards_nil : backwards [] = [] := rfl

@[simp] theorem before_cons : before (layer :: inner) = layer.before ++ before inner := by
  simp [before]

@[simp] theorem backwards_cons :
    backwards (layer :: inner) = layer.after.reverse ++ backwards inner := by
  simp [backwards]

@[simp] theorem backwards_append :
    backwards (outer ++ inner) = backwards outer ++ backwards inner := by
  simp [backwards]

theorem shape_prefixElements : nested.shape.prefixElements = nested.front := by
  unfold shape front
  cases nested.core <;> rfl

theorem shape_suffix : nested.shape.suffix = (backwards nested.layers).reverse := by
  unfold shape
  cases nested.core <;> rfl

theorem front_cons : front ⟨layer :: inner, core⟩ = layer.before ++ front ⟨inner, core⟩ := by
  unfold front
  cases core with
  | repeated element => exact before_cons
  | listed elements => simp

/-- A type that the relation can flatten has layers, and they have its shape. -/
theorem restLayers_of_restTupleShape {shape : TupleShape}
    (h : restTupleShape store fuel ty = some shape) :
    ∃ nested, restLayers store fuel ty = some nested ∧ nested.shape = shape := by
  induction fuel generalizing ty shape with
  | zero =>
    unfold restTupleShape at h
    dsimp only at h
    unfold restLayers
    cases harray : store.arrayType ((store.readonlyOperand ty).getD ty) with
    | some element =>
      rw [harray] at h
      cases h
      exact ⟨_, rfl, rfl⟩
    | none =>
      -- a tuple needs fuel
      rw [harray] at h
      obtain ⟨tuple, _, htuple⟩ := bind_eq_some_iff.mp h
      cases htuple
  | succ fuel ih =>
    unfold restTupleShape at h
    dsimp only at h
    unfold restLayers
    dsimp only
    cases harray : store.arrayType ((store.readonlyOperand ty).getD ty) with
    | some element =>
      rw [harray] at h
      cases h
      exact ⟨_, rfl, rfl⟩
    | none =>
      rw [harray] at h
      obtain ⟨tuple, hty, htuple⟩ := bind_eq_some_iff.mp h
      dsimp only
      rw [hty, bind_some]
      cases hrest : tuple.rest with
      | none =>
        rw [tupleShape, hrest] at htuple
        cases htuple
        exact ⟨_, rfl, by simp [RestLayers.shape, TupleShape.fixed]⟩
      | some rest =>
        rw [tupleShape_of_rest hrest] at htuple
        dsimp only
        by_cases hposition : rest.position > tuple.elements.length
        · rw [if_pos hposition] at htuple
          cases htuple
        · rw [if_neg hposition] at htuple ⊢
          obtain ⟨restShape, hshape, rfl⟩ := map_eq_some_iff.mp htuple
          obtain ⟨nested, hnested, rfl⟩ := ih hshape
          refine ⟨_, by rw [hnested, map_some], ?_⟩
          unfold RestLayers.shape
          cases nested.core with
          | repeated element => simp
          | listed elements => simp

/-- An id with an entry in a side table is no type parameter. -/
theorem tag_ne_typeParam {t : SideTable} {entry : t.Entry} (h : store.entry t ty = some entry)
    (ht : t.tag ≠ .typeParam) : ¬ store.tag ty = some .typeParam := by
  rw [Store.tag_of_entry h]
  simpa using ht

/-- An element behind the rest is the same one counted from the end of the tuple. -/
theorem getElem?_behind {elements : List TypeId} {position : Nat}
    (hposition : position ≤ elements.length) (hoffset : offset < total)
    (htotal : elements.length - position ≤ total)
    (htail : total - (elements.length - position) ≤ offset) :
    elements[position + (offset - (total - (elements.length - position)))]? =
      (elements.drop position).reverse[total - 1 - offset]? := by
  have hlength : (elements.drop position).length = elements.length - position := length_drop
  rw [getElem?_reverse (by omega), getElem?_drop, hlength]
  congr 1
  omega

/-- **What inference computes**: the walk over the layers. -/
theorem restInferenceTarget_eq (h : restLayers store fuel ty = some nested)
    (hoffset : offset < total) (htotal : (backwards nested.layers).length ≤ total) :
    restInferenceTarget store (fuel + 1) ty offset total =
      some (walk nested.core total nested.layers offset) := by
  induction fuel generalizing ty nested offset with
  | zero =>
    unfold restLayers at h
    obtain ⟨element, harray, rfl⟩ := map_eq_some_iff.mp h
    have htag := tag_ne_typeParam harray (by simp [SideTable.tag])
    unfold restInferenceTarget
    dsimp only
    rw [if_neg htag, harray]
    rfl
  | succ fuel ih =>
    unfold restLayers at h
    dsimp only at h
    unfold restInferenceTarget
    dsimp only
    cases harray : store.arrayType ((store.readonlyOperand ty).getD ty) with
    | some element =>
      have htag := tag_ne_typeParam harray (by simp [SideTable.tag])
      rw [harray] at h
      cases h
      rw [if_neg htag]
      rfl
    | none =>
      rw [harray] at h
      obtain ⟨tuple, hty, htuple⟩ := bind_eq_some_iff.mp h
      have htag := tag_ne_typeParam hty (by simp [SideTable.tag])
      rw [if_neg htag, hty]
      dsimp only
      unfold tupleInferenceTarget
      cases hrest : tuple.rest with
      | none =>
        rw [hrest] at htuple
        cases htuple
        rfl
      | some rest =>
        rw [hrest] at htuple
        dsimp only at htuple ⊢
        by_cases hposition : rest.position > tuple.elements.length
        · rw [if_pos hposition] at htuple
          cases htuple
        · rw [if_neg hposition] at htuple
          obtain ⟨inner, hinner, rfl⟩ := map_eq_some_iff.mp htuple
          rw [not_lt] at hposition
          simp only [backwards_cons, length_append, length_reverse, length_drop] at htotal
          unfold walk
          simp only [length_take, length_drop, Nat.min_eq_left hposition]
          by_cases hbefore : offset < rest.position
          · rw [if_pos hbefore, if_pos hbefore, getElem?_take_of_lt hbefore]
          · rw [if_neg hbefore, if_neg hbefore]
            by_cases htail : total - (tuple.elements.length - rest.position) ≤ offset
            · -- the tuple's own elements behind its rest
              rw [if_pos htail, if_pos (by omega),
                getElem?_behind hposition hoffset (by omega) htail]
            · rw [if_neg htail, if_neg (by omega)]
              exact ih hinner (by omega) (by omega)

/-! ## §4 Where the walk ends -/

/-- Every element with a fixed position is found. -/
theorem walk_front (hoffset : offset < total)
    (htotal : nested.front.length + (backwards nested.layers).length ≤ total)
    (h : offset < nested.front.length) :
    walk nested.core total nested.layers offset = nested.front[offset]? := by
  obtain ⟨layers, core⟩ := nested
  dsimp only at *
  induction layers generalizing offset with
  | nil =>
    unfold walk front
    cases core with
    | repeated element => simp [front] at h
    | listed elements => simp
  | cons layer inner ih =>
    rw [front_cons] at h htotal ⊢
    simp only [length_append, backwards_cons, length_reverse] at h htotal
    unfold walk
    by_cases hbefore : offset < layer.before.length
    · rw [if_pos hbefore, getElem?_append_left hbefore]
    · -- the arguments behind the position are more than the elements behind the rest
      rw [if_neg hbefore, if_neg (by omega), getElem?_append_right (by omega)]
      exact ih (by omega) (by omega) (by omega)

/-- So is the element that the rest repeats. -/
theorem walk_repeated {element : TypeId} (hcore : core = .repeated element)
    (hoffset : offset < total) (h : (before layers).length ≤ offset)
    (hback : (backwards layers).length ≤ total - 1 - offset) :
    walk core total layers offset = some element := by
  induction layers generalizing offset with
  | nil =>
    unfold walk
    rw [hcore]
  | cons layer inner ih =>
    simp only [before_cons, backwards_cons, length_append, length_reverse] at h hback
    unfold walk
    rw [if_neg (by omega), if_neg (by omega)]
    exact ih (by omega) (by omega) (by omega)

theorem passedOver_nil : PassedOver [] back := by
  intro outer layer inner h
  simp at h

theorem passedOver_cons : PassedOver (layer :: inner) back ↔
    layer.after.length ≤ back ∧ PassedOver inner (back + layer.before.length) := by
  constructor
  · intro h
    constructor
    · simpa using h [] layer inner rfl
    · intro outer layer' inner' hinner
      have := h (layer :: outer) layer' inner' (by rw [hinner, cons_append])
      simp only [before_cons, length_append] at this
      omega
  · intro h outer layer' inner' hlayers
    cases outer with
    | nil =>
      cases hlayers
      simpa using h.1
    | cons outermost outer =>
      rw [cons_append, cons.injEq] at hlayers
      obtain ⟨rfl, hinner⟩ := hlayers
      have := h.2 outer layer' inner' hinner
      simp only [before_cons, length_append]
      omega

/-- Counting from the end, one tuple further in. -/
theorem shiftedTo_cons : ShiftedTo ⟨layer :: inner, core⟩ back ty ↔
    layer.after.reverse[back]? = some ty ∨
      layer.after.length ≤ back ∧ ShiftedTo ⟨inner, core⟩ (back + layer.before.length) ty := by
  constructor
  · intro h
    rcases h with ⟨outer, layer', inner', hlayers, hpassed, hty⟩ | ⟨hpassed, hcore⟩
    · cases outer with
      | nil =>
        cases hlayers
        exact Or.inl (by simpa using hty)
      | cons outermost outer =>
        rw [cons_append, cons.injEq] at hlayers
        obtain ⟨rfl, hinner⟩ := hlayers
        rw [passedOver_cons] at hpassed
        refine Or.inr ⟨hpassed.1, Or.inl ⟨outer, layer', inner', hinner, hpassed.2, ?_⟩⟩
        simpa [Nat.add_assoc] using hty
    · rw [passedOver_cons] at hpassed
      exact Or.inr ⟨hpassed.1, Or.inr ⟨hpassed.2, hcore⟩⟩
  · intro h
    rcases h with hty | ⟨hle, ⟨outer, layer', inner', hinner, hpassed, hty⟩ | ⟨hpassed, hcore⟩⟩
    · exact Or.inl ⟨[], layer, inner, rfl, passedOver_nil, by simpa using hty⟩
    · refine Or.inl ⟨layer :: outer, layer', inner', ?_, passedOver_cons.mpr ⟨hle, hpassed⟩, ?_⟩
      · dsimp only at hinner ⊢
        rw [hinner, cons_append]
      · simpa [Nat.add_assoc] using hty
    · exact Or.inr ⟨passedOver_cons.mpr ⟨hle, hpassed⟩, hcore⟩

/-- **Behind the elements with a fixed position** the walk ends at the shifted place. -/
theorem walk_eq_some_iff (hoffset : offset < total) (h : nested.front.length ≤ offset) :
    walk nested.core total nested.layers offset = some ty ↔
      nested.ShiftedTo (total - 1 - offset) ty := by
  obtain ⟨layers, core⟩ := nested
  induction layers generalizing offset with
  | nil =>
    unfold walk ShiftedTo
    cases core with
    | repeated element => simp [passedOver_nil]
    | listed elements =>
      have hnone : elements[offset]? = none := by
        apply getElem?_eq_none
        simpa [front] using h
      simp [hnone]
  | cons layer inner ih =>
    rw [front_cons, length_append] at h
    rw [shiftedTo_cons]
    unfold walk
    rw [if_neg (by omega)]
    by_cases hback : total - 1 - offset < layer.after.length
    · rw [if_pos hback]
      constructor
      · exact Or.inl
      · intro hty
        rcases hty with hty | ⟨hle, _⟩
        · exact hty
        · omega
    · have hnone : layer.after.reverse[total - 1 - offset]? = none := by
        apply getElem?_eq_none
        rw [length_reverse]
        omega
      have hplace : total - 1 - (offset - layer.before.length) =
          total - 1 - offset + layer.before.length := by omega
      rw [if_neg hback, ih (by omega) (by omega), hplace, hnone]
      constructor
      · intro hty
        exact Or.inr ⟨by omega, hty⟩
      · intro hty
        rcases hty with hty | ⟨_, hty⟩
        · cases hty
        · exact hty

/-! ## §5 Agreement with the relation -/

/-- What the relation reads at a position of the flattened shape. -/
theorem elementAt_shape (haccepts : nested.shape.acceptsLen total = true) (hoffset : offset < total) :
    nested.shape.elementAt offset total =
      if offset < nested.front.length then nested.front[offset]?
      else if total - 1 - offset < (backwards nested.layers).length then
        (backwards nested.layers)[total - 1 - offset]?
      else nested.shape.variadic := by
  have hmin := (TupleShape.acceptsLen_iff.mp haccepts).1
  unfold TupleShape.minLen at hmin
  rw [shape_prefixElements, shape_suffix, length_reverse] at hmin
  by_cases hfront : offset < nested.front.length
  · rw [if_pos hfront]
    rw [← shape_prefixElements] at hfront ⊢
    exact TupleShape.elementAt_of_lt haccepts hoffset hfront
  · rw [if_neg hfront, TupleShape.elementAt_of_ge haccepts hoffset
      (by rw [shape_prefixElements]; omega), shape_suffix, length_reverse]
    by_cases hback : total - 1 - offset < (backwards nested.layers).length
    · rw [if_pos hback, if_pos (by omega), getElem?_reverse (by omega)]
      congr 1
      omega
    · rw [if_neg hback, if_neg (by omega)]

/-- A place behind the rests lies in one of the tuples. -/
theorem exists_layer (h : back < (backwards layers).length) :
    ∃ outer layer inner, layers = outer ++ layer :: inner ∧
      (backwards outer).length ≤ back ∧ back < (backwards outer).length + layer.after.length := by
  induction layers generalizing back with
  | nil => simp at h
  | cons layer inner ih =>
    rw [backwards_cons, length_append, length_reverse] at h
    by_cases hback : back < layer.after.length
    · exact ⟨[], layer, inner, rfl, Nat.zero_le _, by simpa using hback⟩
    · obtain ⟨outer, layer', inner', rfl, hle, hlt⟩ := @ih (back - layer.after.length) (by omega)
      refine ⟨layer :: outer, layer', inner', rfl, ?_, ?_⟩
      · simp only [backwards_cons, length_append, length_reverse]
        omega
      · simp only [backwards_cons, length_append, length_reverse]
        omega

/-- Where no fixed elements are around the tuple, the shifted place is the right one. -/
theorem shiftedTo_of_not_enclosed (hnot : ¬ BehindEnclosed ⟨layers, core⟩ back)
    (hty : (backwards layers)[back]? = some ty) : ShiftedTo ⟨layers, core⟩ back ty := by
  obtain ⟨hback, _⟩ := List.getElem?_eq_some_iff.mp hty
  obtain ⟨outer, layer, inner, rfl, hle, hlt⟩ := exists_layer hback
  have hempty : before outer = [] ∧ backwards outer = [] := by
    by_contra hne
    exact hnot ⟨outer, layer, inner, rfl, hle, hlt, not_and_or.mp hne⟩
  refine Or.inl ⟨outer, layer, inner, rfl, ?_, ?_⟩
  · -- the tuples around it have no elements at all
    intro outer' layer' inner' houter
    have hbackwards := hempty.2
    rw [houter, backwards_append, backwards_cons, append_eq_nil_iff,
      append_eq_nil_iff, reverse_eq_nil_iff] at hbackwards
    rw [hbackwards.2.1]
    exact Nat.zero_le _
  · rw [backwards_append, hempty.2, nil_append, backwards_cons,
      getElem?_append_left (by simpa [hempty.2] using hlt)] at hty
    rw [hempty.1]
    exact hty

/-- An enclosed place is behind the rests. -/
theorem BehindEnclosed.lt (h : nested.BehindEnclosed back) :
    back < (backwards nested.layers).length := by
  obtain ⟨outer, layer, inner, hlayers, _, hlt, _⟩ := h
  rw [hlayers, backwards_append, backwards_cons]
  simp only [length_append, length_reverse]
  omega

end RestLayers

/-- **Inference and the relation read the same type at a position exactly if it is aligned.** -/
theorem rest_inference_target_agrees_iff {store : Store} {fuel : Nat} {rest : TypeId}
    {shape : TupleShape} {offset total : Nat}
    (hshape : restTupleShape store fuel rest = some shape)
    (haccepts : shape.acceptsLen total = true) (hoffset : offset < total) :
    ∃ nested, restLayers store fuel rest = some nested ∧
      (restInferenceTarget store (fuel + 1) rest offset total =
          some (shape.elementAt offset total) ↔
        nested.Aligned (total - 1 - offset)) := by
  obtain ⟨nested, hnested, rfl⟩ := RestLayers.restLayers_of_restTupleShape hshape
  refine ⟨nested, hnested, ?_⟩
  obtain ⟨hmin, hfixed⟩ := TupleShape.acceptsLen_iff.mp haccepts
  unfold TupleShape.minLen at hmin hfixed
  rw [RestLayers.shape_prefixElements, RestLayers.shape_suffix, length_reverse] at hmin hfixed
  rw [RestLayers.restInferenceTarget_eq hnested hoffset (by omega), some.injEq,
    RestLayers.elementAt_shape haccepts hoffset]
  by_cases hfront : offset < nested.front.length
  · -- an element before the rests
    rw [if_pos hfront, RestLayers.walk_front hoffset hmin hfront]
    refine iff_of_true rfl (Or.inl ?_)
    intro henclosed
    have := henclosed.lt
    omega
  · rw [if_neg hfront]
    by_cases hback : total - 1 - offset < (RestLayers.backwards nested.layers).length
    · -- an element behind a rest: the relation reads it at its place from the end
      rw [if_pos hback, getElem?_eq_getElem hback, RestLayers.walk_eq_some_iff hoffset (by omega)]
      unfold RestLayers.Aligned
      rw [getElem?_eq_getElem hback]
      constructor
      · intro hshifted
        exact Or.inr ⟨_, hshifted, rfl⟩
      · intro haligned
        rcases haligned with hnot | ⟨ty, hshifted, hty⟩
        · exact RestLayers.shiftedTo_of_not_enclosed hnot (getElem?_eq_getElem hback)
        · rw [some.injEq] at hty
          rw [hty]
          exact hshifted
    · -- the element that the rest repeats
      rw [if_neg hback]
      have hcore : ∃ element, nested.core = .repeated element ∧
          nested.shape.variadic = some element := by
        unfold RestLayers.shape at hfixed ⊢
        cases hcase : nested.core with
        | repeated element => exact ⟨element, rfl, rfl⟩
        | listed elements =>
          rw [hcase] at hfixed
          have := hfixed rfl
          omega
      obtain ⟨element, hcore, hvariadic⟩ := hcore
      have hbefore : (RestLayers.before nested.layers).length ≤ offset := by
        unfold RestLayers.front at hfront
        rw [hcore] at hfront
        dsimp only at hfront
        omega
      rw [hvariadic, RestLayers.walk_repeated hcore hoffset hbefore (by omega)]
      refine iff_of_true rfl (Or.inl ?_)
      intro henclosed
      exact hback henclosed.lt

/-- In `[number, ...[string, ...number[], string]]` the third of three arguments is read as the
    array's `number`. -/
theorem rest_inference_target_nested_tail :
    ¬ ∀ (σ : Interner) (fuel : Nat) (rest : TypeId) (shape : TupleShape) (offset total : Nat),
      σ.Reachable (fun _ => 0) → restTupleShape σ.store fuel rest = some shape →
      shape.acceptsLen total = true → offset < total →
      restInferenceTarget σ.store (fuel + 1) rest offset total =
        some (shape.elementAt offset total) := by
  intro hagrees
  obtain ⟨reached, hrun, hshape, htarget⟩ := exists_of_run
    (r := runHistory (fun _ => 0) 0 [.internArray 8, .internTupleType ⟨[9, 9], some ⟨1, 19⟩⟩,
      .internTupleType ⟨[8], some ⟨1, 20⟩⟩] (Interner.withIntrinsics (fun _ => 0)))
    (P := fun reached => restTupleShape reached.2.store 2 21 = some ⟨[8, 9], some 8, [9]⟩ ∧
      restInferenceTarget reached.2.store 3 21 2 3 = some (some 8)) (by decide +kernel)
  have hsame := hagrees reached.2 2 21 _ 2 3 ⟨0, _, reached.1, hrun⟩ hshape (by decide)
    (by decide)
  rw [htarget] at hsame
  exact absurd hsame (by decide)

/-- In `[number, ...string[], number]` the last of three arguments is read at its place. -/
theorem rest_inference_target_agrees_iff_outer :
    ∃ σ : Interner, σ.Reachable (fun _ => 0) ∧ ∃ shape nested,
      restTupleShape σ.store 1 20 = some shape ∧ restLayers σ.store 1 20 = some nested ∧
      (restInferenceTarget σ.store 2 20 2 3 = some (shape.elementAt 2 3) ↔ nested.Aligned 0) := by
  obtain ⟨reached, hrun, hreads⟩ := exists_of_run
    (r := runHistory (fun _ => 0) 0 [.internArray 9, .internTupleType ⟨[8, 8], some ⟨1, 19⟩⟩]
      (Interner.withIntrinsics (fun _ => 0)))
    (P := fun reached => restTupleShape reached.2.store 1 20 = some ⟨[8], some 9, [8]⟩)
    (by decide +kernel)
  obtain ⟨nested, hnested, hiff⟩ :=
    @rest_inference_target_agrees_iff _ 1 20 _ 2 3 hreads (by decide) (by decide)
  exact ⟨reached.2, ⟨0, _, reached.1, hrun⟩, _, nested, hreads, hnested, hiff⟩

end Typokat.Check
