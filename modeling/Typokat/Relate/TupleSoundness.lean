import Typokat.Relate.Engine
import Typokat.Types.History

/-!
# Soundness of Tuple Assignability (`typokat-relate/src/relate/relation/collections.rs`)

A tuple type stands for the sequences of element types that it unrolls to: the fixed elements in
order, and in place of the rest any number of repetitions of an array's element, or an unrolling
of a tuple.  Assignability of tuples is sound when every unrolling of the source is matched,
position by position, by an unrolling of the target.

The relation asks about each pair of fixed elements once, and about the two repeated elements
once, so the answers it gets settle all the unrollings.

## Main Results

- `unrolls_iff_shape` : a tuple and its flattened shape unroll to the same sequences
- `relate_tuples_sound` : **an affirmed pair of tuples matches every unrolling of the source**
-/

namespace Typokat.Relate

open Types TupleShape Option List Relation

/-! ## §1 Unrolling -/

mutual

/-- The sequences of a tuple. -/
inductive Unrolls (store : Store) : TupleType → List TypeId → Prop
  | fixed {tuple : TupleType} (hrest : tuple.rest = none) : Unrolls store tuple tuple.elements
  | spliced {tuple : TupleType} {rest : TupleRestType} {middle : List TypeId}
      (hrest : tuple.rest = some rest) (hposition : rest.position ≤ tuple.elements.length)
      (hmiddle : RestUnrolls store rest.ty middle) :
      Unrolls store tuple
        (tuple.elements.take rest.position ++ middle ++ tuple.elements.drop rest.position)

/-- The sequences of a rest. -/
inductive RestUnrolls (store : Store) : TypeId → List TypeId → Prop
  | array {ty element : TypeId} (harray : store.arrayType ty = some element) (count : Nat) :
      RestUnrolls store ty (List.replicate count element)
  | tuple {ty : TypeId} {tuple : TupleType} {sequence : List TypeId}
      (htuple : store.tupleType ty = some tuple) (hsequence : Unrolls store tuple sequence) :
      RestUnrolls store ty sequence
  | readonly {ty operand : TypeId} {sequence : List TypeId}
      (hoperand : store.readonlyOperand ty = some operand)
      (hsequence : RestUnrolls store operand sequence) : RestUnrolls store ty sequence

end

namespace TupleShape

/-- The sequence of a shape whose rest is repeated `count` times. -/
def unroll (shape : TupleShape) (count : Nat) : List TypeId :=
  shape.prefixElements ++ (shape.variadic.elim [] (List.replicate count)) ++ shape.suffix

variable {shape : TupleShape} {index len count : Nat}

theorem length_unroll_of_variadic {element : TypeId} (h : shape.variadic = some element) :
    (shape.unroll count).length = shape.minLen + count := by
  unfold unroll minLen
  rw [h, elim_some]
  simp only [length_append, length_replicate]
  omega

theorem length_unroll_of_fixed (h : shape.variadic = none) :
    (shape.unroll count).length = shape.minLen := by
  unfold unroll minLen
  rw [h, elim_none]
  simp only [length_append, length_nil]
  omega

/-- At an accepted length there is one unrolling. -/
theorem length_unroll (haccepts : shape.acceptsLen len = true) :
    (shape.unroll (len - shape.minLen)).length = len := by
  obtain ⟨hmin, hfixed⟩ := acceptsLen_iff.mp haccepts
  cases h : shape.variadic with
  | none => rw [length_unroll_of_fixed h, hfixed h]
  | some element =>
    rw [length_unroll_of_variadic h]
    omega

/-- The element of a position is the one that the unrolling has there. -/
theorem elementAt_eq_unroll (haccepts : shape.acceptsLen len = true) (hindex : index < len) :
    shape.elementAt index len = (shape.unroll (len - shape.minLen))[index]? := by
  obtain ⟨hmin, hfixed⟩ := acceptsLen_iff.mp haccepts
  have hlength := length_unroll haccepts
  unfold minLen at hmin hfixed
  by_cases hprefix : index < shape.prefixElements.length
  · rw [elementAt_of_lt haccepts hindex hprefix]
    unfold unroll
    rw [append_assoc, getElem?_append_left hprefix]
  · rw [elementAt_of_ge haccepts hindex (by omega)]
    unfold unroll minLen at *
    rw [append_assoc, getElem?_append_right (by omega)]
    cases h : shape.variadic with
    | none =>
      -- without a rest the suffix follows at once
      have hlen := hfixed h
      rw [if_pos (by omega), elim_none, nil_append]
      congr 1
      omega
    | some element =>
      rw [elim_some]
      by_cases hsuffix : len ≤ index + shape.suffix.length
      · rw [if_pos hsuffix, getElem?_append_right (by rw [length_replicate]; omega),
          length_replicate]
        congr 1
        omega
      · rw [if_neg hsuffix, getElem?_append_left (by rw [length_replicate]; omega),
          getElem?_replicate_of_lt (by omega)]

end TupleShape

/-! ## §2 Flattening keeps the unrollings -/

section Flattening

variable {store : Store} {fuel : Nat} {tuple : TupleType} {shape : TupleShape} {ty : TypeId}
variable {sequence : List TypeId}

theorem readonlyOperand_of_entry {t : SideTable} {entry : t.Entry}
    (h : store.entry t ty = some entry) (ht : TypeTag.readonly ≠ t.tag) :
    store.readonlyOperand ty = none :=
  Store.inlinePayload_eq_none_of_entry h ht

theorem tupleType_of_arrayType {element : TypeId} (h : store.arrayType ty = some element) :
    store.tupleType ty = none :=
  Store.entry_eq_none_of_entry h (by decide)

/-- A rest unrolls as what `readonly` is taken off of. -/
theorem restUnrolls_readonly : RestUnrolls store ty sequence ↔
      RestUnrolls store ((store.readonlyOperand ty).getD ty) sequence := by
  cases hoperand : store.readonlyOperand ty with
  | none => rfl
  | some operand =>
    rw [getD_some]
    constructor
    · intro hrest
      cases hrest with
      | array harray count =>
        rw [readonlyOperand_of_entry harray (by decide)] at hoperand
        cases hoperand
      | tuple htuple hsequence =>
        rw [readonlyOperand_of_entry htuple (by decide)] at hoperand
        cases hoperand
      | readonly hoperand' hsequence =>
        rw [hoperand', some.injEq] at hoperand
        rw [← hoperand]
        exact hsequence
    · exact RestUnrolls.readonly hoperand

/-- An array repeats its element. -/
theorem restUnrolls_array {element : TypeId} (h : store.arrayType ty = some element) :
    RestUnrolls store ty sequence ↔ ∃ count, sequence = replicate count element := by
  constructor
  · intro hrest
    cases hrest with
    | array harray count =>
      rw [harray, some.injEq] at h
      exact ⟨count, by rw [h]⟩
    | tuple htuple hsequence =>
      rw [tupleType_of_arrayType h] at htuple
      cases htuple
    | readonly hoperand hsequence =>
      rw [readonlyOperand_of_entry h (by decide)] at hoperand
      cases hoperand
  · rintro ⟨count, rfl⟩
    exact .array h count

/-- A tuple is spliced in. -/
theorem restUnrolls_tuple (h : store.tupleType ty = some tuple) :
    RestUnrolls store ty sequence ↔ Unrolls store tuple sequence := by
  constructor
  · intro hrest
    cases hrest with
    | array harray count =>
      rw [tupleType_of_arrayType harray] at h
      cases h
    | tuple htuple hsequence =>
      rw [h, some.injEq] at htuple
      rw [htuple]
      exact hsequence
    | readonly hoperand hsequence =>
      rw [readonlyOperand_of_entry h (by decide)] at hoperand
      cases hoperand
  · exact RestUnrolls.tuple h

theorem unrolls_spliced {rest : TupleRestType} (hrest : tuple.rest = some rest)
    (hposition : rest.position ≤ tuple.elements.length) :
    Unrolls store tuple sequence ↔ ∃ middle, RestUnrolls store rest.ty middle ∧
      sequence =
        tuple.elements.take rest.position ++ middle ++ tuple.elements.drop rest.position := by
  constructor
  · intro h
    cases h with
    | fixed hnone =>
      rw [hnone] at hrest
      cases hrest
    | spliced hrest' hposition' hmiddle =>
      rw [hrest', some.injEq] at hrest
      cases hrest
      exact ⟨_, hmiddle, rfl⟩
  · rintro ⟨middle, hmiddle, rfl⟩
    exact .spliced hrest hposition hmiddle

/-- **A tuple and its flattened shape unroll to the same sequences.** -/
theorem unrolls_iff_shape (h : tupleShape store fuel tuple = some shape) :
    Unrolls store tuple sequence ↔ ∃ count, sequence = shape.unroll count := by
  induction fuel generalizing tuple shape sequence with
  | zero => cases h
  | succ fuel ih =>
    cases hrest : tuple.rest with
    | none =>
      rw [tupleShape, hrest, some.injEq] at h
      have hunroll : ∀ count, shape.unroll count = tuple.elements := by
        intro count
        rw [← h]
        simp [unroll, fixed]
      constructor
      · intro hunrolls
        cases hunrolls with
        | fixed _ => exact ⟨0, (hunroll 0).symm⟩
        | spliced hsome _ _ =>
          rw [hsome] at hrest
          cases hrest
      · rintro ⟨count, rfl⟩
        rw [hunroll]
        exact .fixed hrest
    | some rest =>
      rw [tupleShape_of_rest hrest] at h
      by_cases hposition : rest.position > tuple.elements.length
      · rw [if_pos hposition] at h
        cases h
      · rw [if_neg hposition] at h
        rw [not_lt] at hposition
        obtain ⟨restShape, hrestShape, rfl⟩ := map_eq_some_iff.mp h
        -- the rest itself unrolls as its shape
        have hmiddle : ∀ middle, RestUnrolls store rest.ty middle ↔
            ∃ count, middle = restShape.unroll count := by
          intro middle
          unfold restTupleShape at hrestShape
          dsimp only at hrestShape
          cases harray : store.arrayType ((store.readonlyOperand rest.ty).getD rest.ty) with
          | some element =>
            rw [harray, some.injEq] at hrestShape
            rw [restUnrolls_readonly, restUnrolls_array harray, ← hrestShape]
            simp [unroll]
          | none =>
            rw [harray] at hrestShape
            obtain ⟨inner, hinner, hshape⟩ := bind_eq_some_iff.mp hrestShape
            rw [restUnrolls_readonly, restUnrolls_tuple hinner, ih hshape]
        have hunroll : ∀ count, unroll
            { prefixElements := tuple.elements.take rest.position ++ restShape.prefixElements
              variadic := restShape.variadic
              suffix := restShape.suffix ++ tuple.elements.drop rest.position } count =
            tuple.elements.take rest.position ++ restShape.unroll count ++
              tuple.elements.drop rest.position := by
          intro count
          simp [unroll]
        rw [unrolls_spliced hrest hposition]
        constructor
        · rintro ⟨middle, hrestUnrolls, rfl⟩
          obtain ⟨count, rfl⟩ := (hmiddle middle).mp hrestUnrolls
          exact ⟨count, (hunroll count).symm⟩
        · rintro ⟨count, rfl⟩
          exact ⟨_, (hmiddle _).mpr ⟨count, rfl⟩, hunroll count⟩

end Flattening

/-! ## §3 The questions of a run -/

section Runs

variable (recurse : TypeId → TypeId → Bool → Relater → Related)

/-- The questions that `runRule` asks, each with the answer it gets. -/
def askedBy : Rule → AssumedSet → Relater → List (Question × Relation)
  | .done _, _, _ => []
  | .stuck, _, _ => []
  | .ask question next, assumed, relater =>
    match recurse question.src question.tgt
        (if question.probe then false else relater.wantReason) relater with
    | none => []
    | some (result, more, after) =>
      (question, result) ::
        askedBy (next result)
          (if question.isolated && !result.isYes then assumed else assumed ∪ more) after
  | .within context body next, assumed, relater =>
    askedBy body assumed (relater.enter context) ++
      match runRule recurse body assumed (relater.enter context) with
      | none => []
      | some (result, assumed, after) => askedBy (next result) assumed after.leave

/-- The run of a rule ends with `Yes`. -/
def Passes (rule : Rule) (assumed : AssumedSet) (relater : Relater) : Prop :=
  ∃ assumed' relater', runRule recurse rule assumed relater = some (.yes, assumed', relater')

variable {recurse} {rule next : Rule} {assumed : AssumedSet} {relater : Relater}
variable {reason : Reason} {src tgt srcElem tgtElem : TypeId} {index : Nat}

theorem not_passes_no : ¬ Passes recurse (Rule.no reason) assumed relater := by
  rintro ⟨assumed', relater', h⟩
  cases h

theorem not_passes_leaf : ¬ Passes recurse (Rule.leaf src tgt) assumed relater := by
  rintro ⟨assumed', relater', h⟩
  cases h

theorem not_passes_stuck : ¬ Passes recurse .stuck assumed relater := by
  rintro ⟨assumed', relater', h⟩
  cases h

/-- A pair of elements passes with the answer `Yes`, and the run goes on. -/
theorem Passes.element
    (h : Passes recurse (relateElement src tgt index srcElem tgtElem next) assumed relater) :
    ∃ assumed' relater', Passes recurse next assumed' relater' ∧
      askedBy recurse (relateElement src tgt index srcElem tgtElem next) assumed relater =
        ({ src := srcElem, tgt := tgtElem }, .yes) :: askedBy recurse next assumed' relater' := by
  obtain ⟨finalAssumed, finalRelater, hrun⟩ := h
  cases hasked : recurse srcElem tgtElem relater.wantReason relater with
  | none =>
    have hnone : runRule recurse (relateElement src tgt index srcElem tgtElem next) assumed relater
        = none := by
      simp [relateElement, Rule.andThen, Rule.relate, Lib.Inquiry.bind, runRule, hasked]
    rw [hnone] at hrun
    cases hrun
  | some answer =>
    obtain ⟨result, more, after⟩ := answer
    cases result with
    | no child =>
      -- a failure ends the run
      have hfails : runRule recurse (relateElement src tgt index srcElem tgtElem next) assumed
          relater =
            some (.no (.of (.tupleElement index src tgt child.head)), assumed ∪ more, after) := by
        simp [relateElement, Rule.andThen, Rule.relate, Lib.Inquiry.bind, runRule, hasked]
      rw [hfails] at hrun
      cases hrun
    | yes =>
      have hgoesOn : runRule recurse (relateElement src tgt index srcElem tgtElem next) assumed
          relater = runRule recurse next (assumed ∪ more) after := by
        simp [relateElement, Rule.andThen, Rule.relate, Lib.Inquiry.bind, runRule, hasked]
      rw [hgoesOn] at hrun
      refine ⟨assumed ∪ more, after, ⟨_, _, hrun⟩, ?_⟩
      simp [relateElement, Rule.andThen, Rule.relate, Lib.Inquiry.bind, askedBy, hasked]

/-- Pairs of elements that are asked about one after the other all pass. -/
theorem Passes.elements {E : Type} {entries : List E} {body : E → Rule → Rule}
    (pair : E → TypeId × TypeId)
    (hbody : ∀ e ∈ entries, ∃ index, ∀ rest,
      body e rest = relateElement src tgt index (pair e).1 (pair e).2 rest)
    (h : Passes recurse (entries.foldr body next) assumed relater) :
    ∃ assumed' relater', Passes recurse next assumed' relater' ∧
      askedBy recurse (entries.foldr body next) assumed relater =
        entries.map (fun e => (⟨(pair e).1, (pair e).2, false, false⟩, yes)) ++
          askedBy recurse next assumed' relater' := by
  induction entries generalizing assumed relater with
  | nil => exact ⟨assumed, relater, h, rfl⟩
  | cons e entries ih =>
    rw [forall_mem_cons] at hbody
    obtain ⟨index, hindex⟩ := hbody.1
    rw [foldr_cons, hindex] at h ⊢
    obtain ⟨assumed₁, relater₁, hrest, hasked⟩ := h.element
    obtain ⟨assumed₂, relater₂, hnext, hasked'⟩ := ih hbody.2 hrest
    refine ⟨assumed₂, relater₂, hnext, ?_⟩
    rw [hasked, hasked', map_cons, cons_append]

end Runs

/-! ## §4 Tuples -/

section Soundness

variable {recurse : TypeId → TypeId → Bool → Relater → Related}
variable {assumed : AssumedSet} {relater : Relater} {src tgt : TypeId} {store : Store}
variable {srcShape tgtShape : TupleShape} {asked : List (Question × Relation)}

/-- Position by position the pairs were related `Yes`. -/
def Matched (asked : List (Question × Relation)) : List TypeId → List TypeId → Prop :=
  List.Forall₂ (fun srcElem tgtElem => (⟨srcElem, tgtElem, false, false⟩, .yes) ∈ asked)

/-- Lists of one length are matched when their pairs are. -/
theorem matched_of_zip {xs ys : List TypeId} (hlength : xs.length = ys.length)
    (h : ∀ pair ∈ xs.zip ys, (⟨pair.1, pair.2, false, false⟩, yes) ∈ asked) :
    Matched asked xs ys :=
  forall₂_iff_zip.mpr ⟨hlength, fun {_ _} hmem => h _ hmem⟩

theorem matched_replicate {srcElem tgtElem : TypeId}
    (h : (⟨srcElem, tgtElem, false, false⟩, yes) ∈ asked) (count : Nat) :
    Matched asked (replicate count srcElem) (replicate count tgtElem) := by
  induction count with
  | zero => exact .nil
  | succ count ih => exact .cons h ih

theorem mem_asked_zipIdx {pairs : List (TypeId × TypeId)} {pair : TypeId × TypeId}
    (h : pair ∈ pairs) :
    ((⟨pair.1, pair.2, false, false⟩, .yes) : Question × Relation) ∈
      pairs.zipIdx.map (fun e => (⟨e.1.1, e.1.2, false, false⟩, yes)) := by
  rw [← List.zipIdx_map_fst 0 pairs, List.mem_map] at h
  obtain ⟨e, he, rfl⟩ := h
  exact mem_map_of_mem he

/-- Two variadic shapes: the fixed elements in pairs, and the repeated ones once. -/
theorem matched_of_variadic (hvariadic : srcShape.variadic.isSome)
    (h : Passes recurse (relateVariadicTupleToTuple src tgt srcShape tgtShape) assumed relater)
    (count : Nat) :
    ∃ count', Matched
      (askedBy recurse (relateVariadicTupleToTuple src tgt srcShape tgtShape) assumed relater)
      (srcShape.unroll count) (tgtShape.unroll count') := by
  unfold relateVariadicTupleToTuple at h ⊢
  by_cases hlengths : (tgtShape.variadic.isNone || decide (srcShape.minLen < tgtShape.minLen)
      || srcShape.prefixElements.length != tgtShape.prefixElements.length
      || srcShape.suffix.length != tgtShape.suffix.length) = true
  · rw [if_pos hlengths] at h
    exact absurd h not_passes_no
  · rw [if_neg hlengths] at h ⊢
    simp only [Bool.or_eq_true, bne_iff_ne, ne_eq, not_or, not_not] at hlengths
    obtain ⟨⟨⟨hsome, -⟩, hprefix⟩, hsuffix⟩ := hlengths
    obtain ⟨srcElem, hsrc⟩ := isSome_iff_exists.mp hvariadic
    obtain ⟨tgtElem, htgt⟩ : ∃ element, tgtShape.variadic = some element := by
      cases hcase : tgtShape.variadic with
      | some element => exact ⟨element, rfl⟩
      | none => simp [hcase] at hsome
    rw [hsrc, htgt] at h ⊢
    dsimp only at h ⊢
    obtain ⟨assumed₁, relater₁, hpassesSuffix, haskedPrefix⟩ :=
      h.elements (fun e : (TypeId × TypeId) × Nat => e.1) (fun e _ => ⟨e.2, fun _ => rfl⟩)
    obtain ⟨assumed₂, relater₂, hpassesVariadic, haskedSuffix⟩ :=
      hpassesSuffix.elements (fun e : (TypeId × TypeId) × Nat => e.1)
        (fun e _ => ⟨srcShape.prefixElements.length + e.2, fun _ => rfl⟩)
    obtain ⟨assumed₃, relater₃, -, haskedVariadic⟩ := hpassesVariadic.element
    rw [haskedPrefix, haskedSuffix, haskedVariadic]
    refine ⟨count, ?_⟩
    unfold unroll
    rw [hsrc, htgt, elim_some, elim_some]
    refine rel_append (rel_append ?_ ?_) ?_
    · apply matched_of_zip hprefix
      intro pair hpair
      exact mem_append_left _ (mem_asked_zipIdx hpair)
    · apply matched_replicate
      simp
    · apply matched_of_zip hsuffix
      intro pair hpair
      exact mem_append_right _ (mem_append_left _ (mem_asked_zipIdx hpair))

/-- A source of one length: every position is asked about. -/
theorem matched_of_fixed {len : Nat} (hsrc : srcShape.acceptsLen len = true)
    (htgt : tgtShape.acceptsLen len = true)
    (h : Passes recurse ((range len).foldr (fun index rest =>
      match srcShape.elementAt index len, tgtShape.elementAt index len with
      | some srcElem, some tgtElem => relateElement src tgt index srcElem tgtElem rest
      | _, _ => Rule.no (.tupleLength src tgt)) Rule.yes) assumed relater) :
    Matched (askedBy recurse ((range len).foldr (fun index rest =>
      match srcShape.elementAt index len, tgtShape.elementAt index len with
      | some srcElem, some tgtElem => relateElement src tgt index srcElem tgtElem rest
      | _, _ => Rule.no (.tupleLength src tgt)) Rule.yes) assumed relater)
      (srcShape.unroll (len - srcShape.minLen)) (tgtShape.unroll (len - tgtShape.minLen)) := by
  obtain ⟨assumed', relater', -, hasked⟩ := h.elements
    (fun index => ((srcShape.elementAt index len).getD 0, (tgtShape.elementAt index len).getD 0))
    (by
      intro index hindex
      rw [mem_range] at hindex
      obtain ⟨srcElem, hsrcElem⟩ := exists_elementAt hsrc hindex
      obtain ⟨tgtElem, htgtElem⟩ := exists_elementAt htgt hindex
      refine ⟨index, fun rest => ?_⟩
      rw [hsrcElem, htgtElem]
      rfl)
  rw [hasked]
  unfold Matched
  rw [forall₂_iff_get]
  refine ⟨by rw [length_unroll hsrc, length_unroll htgt], ?_⟩
  intro index hindex hindex'
  rw [length_unroll hsrc] at hindex
  apply List.mem_append_left
  rw [List.mem_map]
  refine ⟨index, List.mem_range.mpr hindex, ?_⟩
  rw [elementAt_eq_unroll hsrc hindex, elementAt_eq_unroll htgt hindex,
    getElem?_eq_getElem (by rw [length_unroll hsrc]; exact hindex), getElem?_eq_getElem hindex']
  rfl

/-- A shape passes on to what is done with it. -/
theorem passes_withTupleShape {tuple : TupleType} {next : TupleShape → Rule}
    (h : Passes recurse (withTupleShape store tuple (Rule.leaf src tgt) next) assumed relater) :
    ∃ shape, tupleShape store (shapeFuel store) tuple = some shape ∧
      withTupleShape store tuple (Rule.leaf src tgt) next = next shape := by
  unfold withTupleShape at h ⊢
  by_cases hends : restsEnd store (shapeFuel store) tuple = true
  · rw [if_pos hends] at h ⊢
    cases hshape : tupleShape store (shapeFuel store) tuple with
    | none =>
      rw [hshape] at h
      exact absurd h not_passes_leaf
    | some shape => exact ⟨shape, rfl, rfl⟩
  · rw [if_neg hends] at h
    exact absurd h not_passes_stuck

/-- **An affirmed pair of tuples matches every unrolling of the source.** -/
theorem relate_tuples_sound {srcTuple tgtTuple : TupleType}
    (hsrcTuple : store.tupleType src = some srcTuple)
    (htgtTuple : store.tupleType tgt = some tgtTuple)
    (h : Passes recurse (relateTuples store src tgt) assumed relater)
    {sequence : List TypeId} (hsequence : Unrolls store srcTuple sequence) :
    ∃ sequence', Unrolls store tgtTuple sequence' ∧
      Matched (askedBy recurse (relateTuples store src tgt) assumed relater)
        sequence sequence' := by
  unfold relateTuples at h ⊢
  rw [hsrcTuple, htgtTuple] at h ⊢
  dsimp only at h ⊢
  obtain ⟨srcShape, hsrcShape, hsrc⟩ := passes_withTupleShape h
  rw [hsrc] at h ⊢
  obtain ⟨tgtShape, htgtShape, htgt⟩ := passes_withTupleShape h
  rw [htgt] at h ⊢
  obtain ⟨count, rfl⟩ := (unrolls_iff_shape hsrcShape).mp hsequence
  cases hvariadic : srcShape.variadic with
  | some element =>
    have hfixed : srcShape.fixedLen = none := by simp [fixedLen, hvariadic]
    rw [hfixed] at h ⊢
    obtain ⟨count', hmatched⟩ := matched_of_variadic (by rw [hvariadic]; rfl) h count
    exact ⟨_, (unrolls_iff_shape htgtShape).mpr ⟨count', rfl⟩, hmatched⟩
  | none =>
    have hfixed : srcShape.fixedLen = some srcShape.minLen := by
      simp [fixedLen, minLen, hvariadic]
    rw [hfixed] at h ⊢
    dsimp only at h ⊢
    by_cases haccepts : tgtShape.acceptsLen srcShape.minLen = true
    · rw [haccepts, Bool.not_true, if_neg Bool.false_ne_true] at h ⊢
      have hsrcAccepts : srcShape.acceptsLen srcShape.minLen = true :=
        acceptsLen_iff.mpr ⟨le_rfl, fun _ => rfl⟩
      have hmatched := matched_of_fixed hsrcAccepts haccepts h
      -- without a rest all unrollings of the source are one sequence
      have hunroll : srcShape.unroll count =
          srcShape.unroll (srcShape.minLen - srcShape.minLen) := by
        unfold unroll
        rw [hvariadic, elim_none, elim_none]
      rw [hunroll]
      exact ⟨_, (unrolls_iff_shape htgtShape).mpr ⟨_, rfl⟩, hmatched⟩
    · rw [Bool.not_eq_true] at haccepts
      rw [haccepts, Bool.not_false, if_pos rfl] at h
      exact absurd h not_passes_no

/-- `[number, ...string[]]` is assignable to `[unknown, ...unknown[]]`, so the sequence of a number
    and two strings is matched. -/
theorem relate_tuples_sound_unknown :
    ∃ (σ : Interner) (recurse : TypeId → TypeId → Bool → Relater → Related)
      (sequence' : List TypeId), σ.Reachable (fun _ => 0) ∧
      Unrolls σ.store ⟨[2], some ⟨1, 21⟩⟩ sequence' ∧
      Matched (askedBy recurse (relateTuples σ.store 20 22) ∅ {}) [8, 9, 9] sequence' := by
  obtain ⟨reached, hrun, hsrc, htgt, harray, hyes⟩ := exists_of_run
    (r := runHistory (fun _ => 0) 0 [.internArray 9, .internTupleType ⟨[8], some ⟨1, 19⟩⟩,
      .internArray 2, .internTupleType ⟨[2], some ⟨1, 21⟩⟩]
      (Interner.withIntrinsics (fun _ => 0)))
    (P := fun reached => reached.2.store.tupleType 20 = some ⟨[8], some ⟨1, 19⟩⟩ ∧
      reached.2.store.tupleType 22 = some ⟨[2], some ⟨1, 21⟩⟩ ∧
      reached.2.store.arrayType 19 = some 9 ∧
      (runRule (relate ⟨fun _ => "", fun _ => "", fun _ => none⟩ reached.2.store
        reached.2.wellKnown .assignable 2) (relateTuples reached.2.store 20 22) ∅ {}).map
        (fun ended => ended.1.isYes) = some true) (by decide +kernel)
  have hpasses : Passes (relate ⟨fun _ => "", fun _ => "", fun _ => none⟩ reached.2.store
      reached.2.wellKnown .assignable 2) (relateTuples reached.2.store 20 22) ∅ {} := by
    obtain ⟨⟨result, assumed, relater⟩, hran, hresult⟩ := map_eq_some_iff.mp hyes
    cases result with
    | yes => exact ⟨assumed, relater, hran⟩
    | no child => cases hresult
  have hunrolls : Unrolls reached.2.store ⟨[8], some ⟨1, 19⟩⟩ [8, 9, 9] :=
    @Unrolls.spliced _ ⟨[8], some ⟨1, 19⟩⟩ ⟨1, 19⟩ [9, 9] rfl (by decide) (.array harray 2)
  obtain ⟨sequence', hsequence', hmatched⟩ := relate_tuples_sound hsrc htgt hpasses hunrolls
  exact ⟨reached.2, _, sequence', ⟨0, _, reached.1, hrun⟩, hsequence', hmatched⟩

end Soundness

end Typokat.Relate
