import Typokat.Lib.Revisit
import Typokat.Types.Unions

/-!
# Circular Constraints (`checker/decls/params.rs`)

The constraints of a parameter list are lowered one after the other and recorded; then every
parameter whose constraint leads back to it is reported and its constraint is erased.

The search follows a constraint that is a parameter, and the parameters among the members of
a constraint that is a union or an intersection.  It does not look further into the members:
a stored union has no union among its members, but it may have an intersection, and the other
way round.

## Main Results

- `constraintChainRevisits_iff` : what the search finds
- `circular_constraints_iff` : when the search finds every cycle, and the erased table has none
-/

namespace Typokat.Check

open Types Relation.TransGen List Relation

/-! ## §1 The search -/

/-- The parameters that the search goes on with after a constraint. -/
def bareSuccessors (store : Store) (constraint : TypeId) : List TypeParamId :=
  let direct := ((store.typeParam constraint).map (fun parameter => parameter.id)).toList
  let bare := fun member => (store.typeParam member).map (fun parameter => parameter.id)
  direct ++ ((store.unionMembers constraint).getD []).filterMap bare
    ++ ((store.intersectionMembers constraint).getD []).filterMap bare

/-- The constraint of a parameter in the overlay, or else in the store. -/
def constraintFrom (store : Store) (overlay : FxHashMap TypeParamId TypeId) (includeStore : Bool)
    (param : TypeParamId) : Option TypeId :=
  (overlay.lookup param).or (if includeStore then store.typeParamConstraint param else none)

/-- `constraint_chain_revisits_from_sources`; every parameter is visited once, so the length of
    the store is fuel enough. -/
def constraintChainRevisitsFromSources (store : Store) (start : TypeParamId)
    (overlay : FxHashMap TypeParamId TypeId) (includeStore : Bool) : Option Bool :=
  Lib.revisits (fun param => match constraintFrom store overlay includeStore param with
    | some constraint => bareSuccessors store constraint
    | none => []) start (store.len + 2)

/-- `constraint_chain_revisits`. -/
def constraintChainRevisits (store : Store) (start : TypeParamId) : Option Bool :=
  constraintChainRevisitsFromSources store start ∅ true

/-- `constraint_chain_revisits_with_overlay`. -/
def constraintChainRevisitsWithOverlay (store : Store) (start : TypeParamId)
    (overlay : FxHashMap TypeParamId TypeId) : Option Bool :=
  constraintChainRevisitsFromSources store start overlay false

/-! ## §2 Lowering a parameter list -/

/-- A place in the source text. -/
structure SourceSpan where
  start : Nat
  stop : Nat
  deriving DecidableEq, Repr

/-- The two diagnostics of a parameter list. -/
inductive ParamDiagnostic
  | circularConstraint (span : SourceSpan) (name : String)
  | typeParameterDefaultForwardReference (span : SourceSpan)
  deriving DecidableEq, Repr

/-- The code and the message of a diagnostic. -/
def ParamDiagnostic.message : ParamDiagnostic → String × String
  | .circularConstraint _ name =>
    ("TK2313", "Type parameter '" ++ name ++ "' has a circular constraint.")
  | .typeParameterDefaultForwardReference _ =>
    ("TK2744", "Type parameter defaults can only reference previously declared type parameters.")

/-- What the lowering of a parameter list reads and writes of the checker. -/
structure ParamChecker where
  interner : Interner
  diagnostics : List ParamDiagnostic := []

/-- An annotation, given by its place and by what `lower_annotation` does with it. -/
structure Annotation where
  span : SourceSpan
  lower : ParamChecker → Option TypeId × ParamChecker

/-- A type parameter of the syntax tree. -/
structure TypeParamSyntax where
  name : String
  constraint : Option Annotation := none
  default : Option Annotation := none

/-- The parameters lowered so far, and whether one of them is unavailable. -/
structure LoweredParams where
  params : List GenericTypeParam := []
  unavailable : Bool := false
  checker : ParamChecker

section Lowering

variable (structuralHash : StructuralKey → Nat) (fuel : Nat)

def ParamChecker.emitDiagnostic (checker : ParamChecker) (diagnostic : ParamDiagnostic) :
    ParamChecker :=
  { checker with diagnostics := checker.diagnostics ++ [diagnostic] }

/-- Lower and record the constraint of one parameter. -/
def lowerConstraint (errorTy : TypeId) (param : TypeParamSyntax) (id : TypeParamId)
    (checker : ParamChecker) : Option TypeId × Bool × ParamChecker :=
  match param.constraint with
  | none => (none, false, checker)
  | some constraint =>
    match constraint.lower checker with
    | (some ty, checker) =>
      if ty ≠ errorTy then
        (some ty, false,
          { checker with interner := (checker.interner.setTypeParamConstraint id ty).2 })
      else (none, true, checker)
    | (none, checker) => (none, true, checker)

/-- `default_references_nonpreceding_binder`. -/
def defaultReferencesNonprecedingBinder (index : Nat) (ids : List TypeParamId) (default : TypeId)
    (checker : ParamChecker) : Option (Bool × ParamChecker) :=
  let marker := checker.interner.wellKnown.error
  let replacements := (ids.drop index).foldl
    (fun (map : FxHashMap TypeParamId TypeId) id => map.insert id marker) ∅
  if (ids.drop index).isEmpty then some (false, checker)
  else
    (substitute structuralHash fuel checker.interner default replacements).map
      (fun (result, interner) => (result != default, { checker with interner }))

/-- Lower the default of one parameter; `none` when a substitution does not return. -/
def lowerDefault (errorTy : TypeId) (index : Nat) (ids : List TypeParamId) (param : TypeParamSyntax)
    (checker : ParamChecker) :
    Option (Option TypeId × Bool × ParamChecker) :=
  match param.default with
  | none => some (none, false, checker)
  | some default =>
    match default.lower checker with
    | (none, checker) => some (none, true, checker)
    | (some lowered, checker) =>
      if lowered = errorTy then some (none, true, checker)
      else
        (defaultReferencesNonprecedingBinder structuralHash fuel index ids lowered checker).map
          (fun (nonpreceding, checker) =>
            if nonpreceding then
              (none, true, checker.emitDiagnostic (.typeParameterDefaultForwardReference default.span))
            else (some lowered, false, checker))

/-- Lower the parameters of a list in order. -/
def lowerEach (errorTy : TypeId) (ids : List TypeParamId) :
    Nat → List (TypeParamSyntax × TypeParamId) → LoweredParams → Option LoweredParams
  | _, [], lowered => some lowered
  | index, (param, id) :: rest, lowered =>
    let (constraint, lost, checker) := lowerConstraint errorTy param id lowered.checker
    (lowerDefault structuralHash fuel errorTy index ids param checker).bind
      (fun (default, lost', checker) =>
        lowerEach errorTy ids (index + 1) rest
          { params := lowered.params ++ [⟨id, constraint, default⟩]
            unavailable := lowered.unavailable || lost || lost'
            checker })

/-- A parameter that is reported: its index, id, and the place and name for the report. -/
structure CircularParam where
  index : Nat
  id : TypeParamId
  span : SourceSpan
  name : String

/-- The parameters whose constraint leads back to them. -/
def circularParams (store : Store) :
    Nat → List (TypeParamSyntax × TypeParamId) → Option (List CircularParam)
  | _, [] => some []
  | index, (param, id) :: rest =>
    match param.constraint with
    | none => circularParams store (index + 1) rest
    | some constraint =>
      (constraintChainRevisits store id).bind (fun circular =>
        (circularParams store (index + 1) rest).map (fun found =>
          if circular then ⟨index, id, constraint.span, param.name⟩ :: found else found))

/-- Report one parameter and erase its constraint. -/
def LoweredParams.clear (lowered : LoweredParams) (param : CircularParam) : LoweredParams :=
  let checker := lowered.checker.emitDiagnostic (.circularConstraint param.span param.name)
  { params := lowered.params.modify param.index (fun typeParam =>
      { typeParam with constraint := none })
    unavailable := true
    checker := { checker with interner := (checker.interner.removeTypeParamConstraint param.id).2 } }

/-- Report the circular parameters of a lowered list and erase their constraints. -/
def clearCircular (params : List (TypeParamSyntax × TypeParamId)) (lowered : LoweredParams) :
    Option LoweredParams :=
  (circularParams lowered.checker.interner.store 0 params).map (fun circular =>
    circular.foldl LoweredParams.clear lowered)

/-- `lower_signature_type_params`, up to the validation of the defaults. -/
def lowerSignatureTypeParams (params : List TypeParamSyntax) (ids : List TypeParamId)
    (checker : ParamChecker) : Option LoweredParams :=
  (lowerEach structuralHash fuel checker.interner.wellKnown.error ids 0 (params.zip ids)
    { checker }).bind (clearCircular (params.zip ids))

end Lowering

/-! ## §3 What the search finds -/

section Search

/-- A type shows the parameters that occur in it under unions and intersections. -/
inductive Exposes (store : Store) : TypeId → TypeParamId → Prop
  | bare {ty : TypeId} {parameter : TypeParamType} :
      store.typeParam ty = some parameter → Exposes store ty parameter.id
  | union {ty member : TypeId} {members : List TypeId} {param : TypeParamId} :
      store.unionMembers ty = some members → member ∈ members → Exposes store member param →
      Exposes store ty param
  | intersection {ty member : TypeId} {members : List TypeId} {param : TypeParamId} :
      store.intersectionMembers ty = some members → member ∈ members →
      Exposes store member param → Exposes store ty param

variable (store : Store)

/-- From a parameter to one that its constraint shows. -/
def FollowsConstraint (table : TypeParamId → Option TypeId) (param next : TypeParamId) :
    Prop :=
  ∃ constraint, table param = some constraint ∧ Exposes store constraint next

/-- From a parameter to one that its constraint is, or has as a member. -/
def FollowsDirectly (table : TypeParamId → Option TypeId) (param next : TypeParamId) : Prop :=
  ∃ constraint, table param = some constraint ∧ next ∈ bareSuccessors store constraint

theorem mem_bareSuccessors {store : Store} {constraint : TypeId} {param : TypeParamId} :
    param ∈ bareSuccessors store constraint ↔ ∃ member parameter,
      store.typeParam member = some parameter ∧ parameter.id = param ∧
        (member = constraint ∨
          (∃ members, store.unionMembers constraint = some members ∧ member ∈ members) ∨
          ∃ members, store.intersectionMembers constraint = some members ∧ member ∈ members) := by
  have hgetD : ∀ {members : Option (List TypeId)} {member : TypeId},
      member ∈ members.getD [] ↔ ∃ list, members = some list ∧ member ∈ list := by
    intro members member
    cases members <;> simp
  unfold bareSuccessors
  simp only [mem_append, Option.mem_toList, Option.map_eq_some_iff, mem_filterMap, hgetD]
  constructor
  · intro h
    rcases h with (⟨parameter, hparameter, hid⟩ | ⟨member, hmember, parameter, hparameter, hid⟩) |
      ⟨member, hmember, parameter, hparameter, hid⟩
    · exact ⟨constraint, parameter, hparameter, hid, .inl rfl⟩
    · exact ⟨member, parameter, hparameter, hid, .inr (.inl hmember)⟩
    · exact ⟨member, parameter, hparameter, hid, .inr (.inr hmember)⟩
  · intro ⟨member, parameter, hparameter, hid, hmember⟩
    rcases hmember with rfl | hmember | hmember
    · exact .inl (.inl ⟨parameter, hparameter, hid⟩)
    · exact .inl (.inr ⟨member, hmember, parameter, hparameter, hid⟩)
    · exact .inr ⟨member, hmember, parameter, hparameter, hid⟩

/-- What a constraint shows at once it shows. -/
theorem FollowsDirectly.follows {store : Store} {table : TypeParamId → Option TypeId}
    {param next : TypeParamId} (h : FollowsDirectly store table param next) :
    FollowsConstraint store table param next := by
  obtain ⟨constraint, htable, hnext⟩ := h
  obtain ⟨member, parameter, hparameter, rfl, hmember⟩ := mem_bareSuccessors.mp hnext
  refine ⟨constraint, htable, ?_⟩
  rcases hmember with rfl | ⟨members, hmembers, hmember⟩ | ⟨members, hmembers, hmember⟩
  · exact .bare hparameter
  · exact .union hmembers hmember (.bare hparameter)
  · exact .intersection hmembers hmember (.bare hparameter)

/-- The parameters with a row. -/
def paramIds : Finset TypeParamId :=
  ((List.range store.len).filterMap (fun id =>
    (store.typeParam id).map (fun parameter => parameter.id))).toFinset

theorem card_paramIds_le : (paramIds store).card ≤ store.len := by
  calc (paramIds store).card
      ≤ ((range store.len).filterMap (fun id =>
          (store.typeParam id).map (fun parameter => parameter.id))).length :=
        toFinset_card_le _
    _ ≤ (range store.len).length := length_filterMap_le _ _
    _ = store.len := length_range

theorem mem_paramIds {store : Store} {id : TypeId} {parameter : TypeParamType}
    (h : store.typeParam id = some parameter) : parameter.id ∈ paramIds store := by
  have hrow := (store.entry_eq_some_iff .typeParams id parameter).mp h
  have hlt : id < store.len := by
    rw [← Store.tag_isSome_iff, Store.tag_of_row hrow]
    rfl
  unfold paramIds
  rw [mem_toFinset, mem_filterMap]
  exact ⟨id, mem_range.mpr hlt, by simp [h]⟩

/-- **The search answers, and it answers whether the parameter comes back to itself directly.** -/
theorem constraintChainRevisitsFromSources_iff (start : TypeParamId)
    (overlay : FxHashMap TypeParamId TypeId) (includeStore : Bool) :
    ∃ answer, constraintChainRevisitsFromSources store start overlay includeStore = some answer ∧
      (answer = true ↔ TransGen
        (FollowsDirectly store (constraintFrom store overlay includeStore)) start start) := by
  apply Lib.revisits_spec (paramIds store)
  · intro param next
    unfold FollowsDirectly
    cases constraintFrom store overlay includeStore param with
    | none => simp
    | some constraint => simp
  · intro param next hnext
    obtain ⟨constraint, _, hnext⟩ := hnext
    obtain ⟨member, parameter, hparameter, rfl, _⟩ := mem_bareSuccessors.mp hnext
    exact mem_paramIds hparameter
  · have := card_paramIds_le store
    omega

theorem constraintFrom_empty :
    constraintFrom store ∅ true = store.typeParamConstraint := by
  funext param
  simp [constraintFrom]

/-- The search over the table of the store. -/
theorem constraintChainRevisits_iff (start : TypeParamId) :
    ∃ answer, constraintChainRevisits store start = some answer ∧
      (answer = true ↔ TransGen
        (FollowsDirectly store store.typeParamConstraint) start start) := by
  have h := constraintChainRevisitsFromSources_iff store start ∅ true
  rw [constraintFrom_empty] at h
  exact h

end Search

/-! ## §4 Erasing what was found -/

section Erasing

variable {structuralHash : StructuralKey → Nat} {fuel : Nat}

/-- The constraint of a parameter may be erased: it is neither frozen nor of a base. -/
def Erasable (store : Store) (id : TypeParamId) : Prop :=
  (store.typeParamBelongsToBase id || store.frozenTypeParams.contains id) = false ∧
    id ∉ store.typeParamConstraints.base

/-- What erasing a constraint leaves alone. -/
theorem entry_removeTypeParamConstraint (store : Store) (id : TypeParamId) (t : SideTable) :
    (store.removeTypeParamConstraint id).2.entry t = store.entry t := by
  unfold Store.removeTypeParamConstraint
  split
  · rfl
  · split
    · rfl
    · dsimp only
      split <;> rfl

theorem exposes_congr {store store' : Store} (h : ∀ t, store'.entry t = store.entry t) {ty : TypeId}
    {param : TypeParamId} (hexposes : Exposes store' ty param) :
    Exposes store ty param := by
  induction hexposes with
  | bare hparameter =>
    apply Exposes.bare
    rw [← hparameter]
    exact congrFun (h .typeParams).symm _
  | union hmembers hmember _ ih =>
    refine .union ?_ hmember ih
    rw [← hmembers]
    exact congrFun (h .unions).symm _
  | intersection hmembers hmember _ ih =>
    refine .intersection ?_ hmember ih
    rw [← hmembers]
    exact congrFun (h .intersections).symm _

/-- The table after erasing a constraint. -/
theorem typeParamConstraint_remove {store : Store} (hplain : store.typeParamConstraints.Plain)
    {id : TypeParamId} (hid : Erasable store id) :
    (store.removeTypeParamConstraint id).2.typeParamConstraints.Plain ∧
    (∀ other, Erasable store other → Erasable (store.removeTypeParamConstraint id).2 other) ∧
    ∀ other, (store.removeTypeParamConstraint id).2.typeParamConstraint other =
      if other = id then none else store.typeParamConstraint other := by
  have hremove : store.typeParamConstraints.removeLocal id =
      .ok (store.typeParamConstraints.suffix.lookup id,
        { store.typeParamConstraints with suffix := store.typeParamConstraints.suffix.erase id }) :=
    if_neg hid.2
  have hplain' := LayeredMap.plain_removeLocal hplain hremove
  have hget : ∀ other, LayeredMap.get { store.typeParamConstraints with
      suffix := store.typeParamConstraints.suffix.erase id } other =
        if other = id then none else store.typeParamConstraints.get other := by
    intro other
    rw [LayeredMap.get_of_plain hplain'.1, LayeredMap.get_of_plain hplain]
    by_cases hother : other = id
    · subst hother
      rw [if_pos rfl, Finmap.lookup_eq_none.mpr hid.2]
      simp
    · rw [if_neg hother, Finmap.lookup_erase_ne hother]
  unfold Store.removeTypeParamConstraint
  rw [if_neg (by rw [hid.1]; simp), hremove]
  dsimp only
  split
  · exact ⟨hplain'.1, fun _ hother => hother, hget⟩
  · exact ⟨hplain'.1, fun _ hother => hother, hget⟩

/-- **The table after erasing the reported constraints.** -/
theorem foldl_clear {circular : List CircularParam} {lowered : LoweredParams}
    (hplain : lowered.checker.interner.store.typeParamConstraints.Plain)
    (hall : ∀ param ∈ circular, Erasable lowered.checker.interner.store param.id) :
    (∀ t, (circular.foldl LoweredParams.clear lowered).checker.interner.store.entry t
      = lowered.checker.interner.store.entry t) ∧
    ∀ id, (circular.foldl LoweredParams.clear lowered).checker.interner.store.typeParamConstraint
      id = if ∃ param ∈ circular, param.id = id then none
        else lowered.checker.interner.store.typeParamConstraint id := by
  induction circular generalizing lowered with
  | nil => simp
  | cons param rest ih =>
    obtain ⟨hplain', herasable, htable⟩ :=
      typeParamConstraint_remove hplain (hall param mem_cons_self)
    obtain ⟨hentry, hrest⟩ := @ih (lowered.clear param) hplain'
      (fun other hother => herasable _ (hall other (mem_cons_of_mem _ hother)))
    constructor
    · intro t
      rw [foldl_cons, hentry t]
      exact entry_removeTypeParamConstraint _ _ t
    · intro id
      rw [foldl_cons, hrest id]
      have hcleared : (lowered.clear param).checker.interner.store.typeParamConstraint id =
          if id = param.id then none
          else lowered.checker.interner.store.typeParamConstraint id := htable id
      rw [hcleared]
      by_cases hid : id = param.id
      · rw [if_pos (show ∃ other ∈ param :: rest, other.id = id from
          ⟨param, mem_cons_self, hid.symm⟩)]
        simp [hid]
      · have hiff : (∃ other ∈ param :: rest, other.id = id) ↔ ∃ other ∈ rest, other.id = id := by
          simp [Ne.symm hid]
        simp only [hiff, if_neg hid]

/-- The parameters that are reported. -/
theorem circularParams_spec (store : Store) (params : List (TypeParamSyntax × TypeParamId))
    (index : Nat) : ∃ circular, circularParams store index params = some circular ∧
      ∀ id, (∃ param ∈ circular, param.id = id) ↔
        (∃ param ∈ params, param.2 = id ∧ param.1.constraint ≠ none) ∧
          TransGen (FollowsDirectly store store.typeParamConstraint) id id := by
  induction params generalizing index with
  | nil => exact ⟨[], rfl, by simp⟩
  | cons first rest ih =>
    obtain ⟨param, paramId⟩ := first
    obtain ⟨circular, hcircular, hspec⟩ := ih (index + 1)
    unfold circularParams
    cases hconstraint : param.constraint with
    | none =>
      refine ⟨circular, hcircular, ?_⟩
      intro id
      rw [hspec]
      simp [hconstraint]
    | some constraint =>
      -- the chain revisits the parameter iff it lies on a cycle
      obtain ⟨answer, hanswer, hiff⟩ := constraintChainRevisits_iff store paramId
      dsimp only
      rw [hanswer, hcircular]
      refine ⟨_, rfl, ?_⟩
      intro id
      cases answer with
      | true =>
        have hcycle := hiff.mp rfl
        simp only [if_true, exists_mem_cons_iff, hspec]
        constructor
        · intro h
          rcases h with rfl | ⟨hin, hcycle'⟩
          · exact ⟨.inl ⟨rfl, by simp [hconstraint]⟩, hcycle⟩
          · exact ⟨.inr hin, hcycle'⟩
        · intro ⟨hin, hcycle'⟩
          rcases hin with ⟨hid, _⟩ | hin
          · exact .inl hid
          · exact .inr ⟨hin, hcycle'⟩
      | false =>
        have hno : ¬ TransGen (FollowsDirectly store store.typeParamConstraint)
            paramId paramId := by
          intro hcycle
          have := hiff.mpr hcycle
          cases this
        simp only [Bool.false_eq_true, if_false, hspec, exists_mem_cons_iff]
        constructor
        · intro ⟨hin, hcycle⟩
          exact ⟨.inr hin, hcycle⟩
        · intro ⟨hin, hcycle⟩
          rcases hin with ⟨rfl, _⟩ | hin
          · exact absurd hcycle hno
          · exact ⟨hin, hcycle⟩

/-- **The search finds every cycle, and none is left, exactly when every parameter on a cycle
    is on one whose constraints show the next parameter at once.** -/
theorem circular_constraints_iff {params : List TypeParamSyntax} {ids : List TypeParamId}
    {checker : ParamChecker} {lowered : LoweredParams}
    (hlower : lowerEach structuralHash fuel checker.interner.wellKnown.error ids 0
      (params.zip ids) { checker } = some lowered)
    (hreach : lowered.checker.interner.Reachable structuralHash)
    (herasable : ∀ id ∈ ids, Erasable lowered.checker.interner.store id)
    (hnone : ∀ param ∈ params.zip ids, param.1.constraint = none →
      lowered.checker.interner.store.typeParamConstraint param.2 = none) :
    ((∀ start, ∃ answer, constraintChainRevisits lowered.checker.interner.store start = some answer ∧
        (answer = true ↔ Relation.TransGen (FollowsConstraint lowered.checker.interner.store
          lowered.checker.interner.store.typeParamConstraint) start start)) ∧
      ∃ cleared, lowerSignatureTypeParams structuralHash fuel params ids checker = some cleared ∧
        ∀ param ∈ params.zip ids, ¬ Relation.TransGen
          (FollowsConstraint cleared.checker.interner.store
            cleared.checker.interner.store.typeParamConstraint) param.2 param.2) ↔
    ∀ start, Relation.TransGen (FollowsConstraint lowered.checker.interner.store
        lowered.checker.interner.store.typeParamConstraint) start start →
      Relation.TransGen (FollowsDirectly lowered.checker.interner.store
        lowered.checker.interner.store.typeParamConstraint) start start := by
  constructor
  · intro ⟨hsearch, _⟩ start hcycle
    obtain ⟨answer, hanswer, hiff⟩ := hsearch start
    obtain ⟨answer', hanswer', hiff'⟩ :=
      constraintChainRevisits_iff lowered.checker.interner.store start
    rw [hanswer, Option.some.injEq] at hanswer'
    apply hiff'.mp
    rw [← hanswer']
    exact hiff.mpr hcycle
  · intro hdirect
    constructor
    · intro start
      obtain ⟨answer, hanswer, hiff⟩ :=
        constraintChainRevisits_iff lowered.checker.interner.store start
      refine ⟨answer, hanswer, ?_⟩
      rw [hiff]
      exact ⟨fun h => mono (fun _ _ => FollowsDirectly.follows) _ _ h, hdirect start⟩
    · obtain ⟨circular, hcircular, hreported⟩ :=
        circularParams_spec lowered.checker.interner.store (params.zip ids) 0
      have hids : ∀ param ∈ circular, Erasable lowered.checker.interner.store param.id := by
        intro param hparam
        obtain ⟨⟨source, hsource, hid, _⟩, _⟩ := (hreported param.id).mp ⟨param, hparam, rfl⟩
        apply herasable
        rw [← hid]
        exact (of_mem_zip hsource).2
      obtain ⟨hentry, htable⟩ := foldl_clear
        hreach.consed.wellFormed.plain_constraints hids
      refine ⟨circular.foldl LoweredParams.clear lowered, ?_, ?_⟩
      · unfold lowerSignatureTypeParams clearCircular
        rw [hlower, Option.bind_some, hcircular, Option.map_some]
      · intro param hparam hcycle
        -- the cycle was there before, so its constraint was erased
        have hbefore : ∀ a b, FollowsConstraint
            (circular.foldl LoweredParams.clear lowered).checker.interner.store
            (circular.foldl LoweredParams.clear lowered).checker.interner.store.typeParamConstraint
              a b → FollowsConstraint lowered.checker.interner.store
                lowered.checker.interner.store.typeParamConstraint a b := by
          intro a b ⟨constraint, hconstraint, hexposes⟩
          rw [htable] at hconstraint
          split at hconstraint
          · cases hconstraint
          · exact ⟨constraint, hconstraint, exposes_congr hentry hexposes⟩
        have hsome : param.1.constraint ≠ none := by
          intro hmissing
          obtain ⟨next, ⟨constraint, hconstraint, _⟩, _⟩ :=
            head'_iff.mp (mono hbefore _ _ hcycle)
          rw [hnone param hparam hmissing] at hconstraint
          cases hconstraint
        have hin := (hreported param.2).mpr
          ⟨⟨param, hparam, rfl, hsome⟩, hdirect _ (mono hbefore _ _ hcycle)⟩
        obtain ⟨next, ⟨constraint, hconstraint, _⟩, _⟩ := head'_iff.mp hcycle
        rw [htable, if_pos hin] at hconstraint
        cases hconstraint

/-- `T extends (T & { x: number }) | string` shows `T`, and the search does not find it. -/
theorem constraintChainRevisits_nested :
    ∃ σ : Interner, ∃ start, σ.Reachable (fun _ => 0) ∧
      Relation.TransGen (FollowsConstraint σ.store σ.store.typeParamConstraint) start start ∧
      constraintChainRevisits σ.store start = some false := by
  obtain ⟨reached, hrun, hparameter, hunion, hintersection, hconstraint, hanswer⟩ :=
    exists_of_run (r := runHistory (fun _ => 0) 0 [.internTypeParam 0 "T",
        .internObject { properties := [{ key := .string "x", ty := 8 }] }, .intersection [19, 20],
        .union [21, 9], .setTypeParamConstraint 0 22] (Interner.withIntrinsics (fun _ => 0)))
      (P := fun reached => reached.2.store.typeParam 19 = some ⟨0, "T"⟩ ∧
        reached.2.store.unionMembers 22 = some [9, 21] ∧
        reached.2.store.intersectionMembers 21 = some [19, 20] ∧
        reached.2.store.typeParamConstraint 0 = some 22 ∧
        constraintChainRevisits reached.2.store 0 = some false) (by decide +kernel)
  refine ⟨reached.2, 0, ⟨0, _, reached.1, hrun⟩, .single ⟨22, hconstraint, ?_⟩, hanswer⟩
  apply Exposes.union hunion (show 21 ∈ _ by simp)
  apply Exposes.intersection hintersection (show 19 ∈ _ by simp)
  exact .bare hparameter

/-- The two sides for the list `<T extends U, U extends T>`. -/
theorem circular_constraints_iff_cycle :
    ∃ (params : List TypeParamSyntax) (checker : ParamChecker) (lowered : LoweredParams),
      lowered.checker.interner.store.typeParamConstraint 0 = some 20 ∧
      lowered.checker.interner.store.typeParamConstraint 1 = some 19 ∧
      (((∀ start, ∃ answer,
          constraintChainRevisits lowered.checker.interner.store start = some answer ∧
          (answer = true ↔ TransGen (FollowsConstraint lowered.checker.interner.store
            lowered.checker.interner.store.typeParamConstraint) start start)) ∧
        ∃ cleared, lowerSignatureTypeParams (fun _ => 0) 0 params [0, 1] checker = some cleared ∧
          ∀ param ∈ params.zip [0, 1], ¬ TransGen
            (FollowsConstraint cleared.checker.interner.store
              cleared.checker.interner.store.typeParamConstraint) param.2 param.2) ↔
      ∀ start, TransGen (FollowsConstraint lowered.checker.interner.store
          lowered.checker.interner.store.typeParamConstraint) start start →
        TransGen (FollowsDirectly lowered.checker.interner.store
          lowered.checker.interner.store.typeParamConstraint) start start) := by
  have hname : ∀ (interner : Interner) id name,
      InternerOp.step (fun _ => 0) 0 interner (.internTypeParam id name) =
        some (OpResult.ofId (interner.internTypeParam (fun _ => 0) id name)) := fun _ _ _ => rfl
  have hset : ∀ (interner : Interner) id ty,
      InternerOp.step (fun _ => 0) 0 interner (.setTypeParamConstraint id ty) =
        some (.flag (interner.setTypeParamConstraint id ty).1,
          (interner.setTypeParamConstraint id ty).2) := fun _ _ _ => rfl
  have hrun : ∀ start : Interner, ∃ results, runHistory (fun _ => 0) 0
      [.internTypeParam 0 "T", .internTypeParam 1 "U", .setTypeParamConstraint 0 20,
        .setTypeParamConstraint 1 19] start =
      some (results, ((((start.internTypeParam (fun _ => 0) 0 "T").2.internTypeParam (fun _ => 0) 1
        "U").2.setTypeParamConstraint 0 20).2.setTypeParamConstraint 1 19).2) := by
    intro start
    simp only [runHistory, hname, hset, OpResult.ofId, Option.bind_eq_bind, Option.bind_some]
    exact ⟨_, rfl⟩
  let params : List TypeParamSyntax :=
    [{ name := "T", constraint := some ⟨⟨0, 0⟩, fun checker => (some 20, checker)⟩ },
      { name := "U", constraint := some ⟨⟨0, 0⟩, fun checker => (some 19, checker)⟩ }]
  -- the interner stays a variable: its value is only evaluated, never unified with
  obtain ⟨declared, hdeclared⟩ : ∃ declared, declared =
      (((Interner.withIntrinsics (fun _ => 0)).internTypeParam (fun _ => 0) 0 "T").2.internTypeParam
        (fun _ => 0) 1 "U").2 := ⟨_, rfl⟩
  let interner := ((declared.setTypeParamConstraint 0 20).2.setTypeParamConstraint 1 19).2
  have hlower : lowerEach (fun _ => 0) 0 declared.wellKnown.error [0, 1] 0 (params.zip [0, 1])
      { checker := { interner := declared } } =
      some { params := [⟨0, some 20, none⟩, ⟨1, some 19, none⟩], checker := { interner } } := by
    have herror : declared.wellKnown.error = 0 := by
      subst hdeclared
      decide +kernel
    rw [herror]
    rfl
  have hreach : interner.Reachable (fun _ => 0) := by
    subst hdeclared
    exact ⟨0, _, hrun _⟩
  have hrows : interner.store.typeParamConstraint 0 = some 20 ∧
      interner.store.typeParamConstraint 1 = some 19 ∧
      ∀ id ∈ [0, 1], (interner.store.typeParamBelongsToBase id ||
        interner.store.frozenTypeParams.contains id) = false ∧
          id ∉ interner.store.typeParamConstraints.base := by
    subst hdeclared
    decide +kernel
  have hnone : ∀ param ∈ params.zip [0, 1], param.1.constraint = none →
      interner.store.typeParamConstraint param.2 = none := by
    intro param hparam hmissing
    rcases mem_cons.mp hparam with rfl | hparam
    · cases hmissing
    · rw [mem_singleton.mp hparam] at hmissing
      cases hmissing
  exact ⟨params, { interner := declared },
    { params := [⟨0, some 20, none⟩, ⟨1, some 19, none⟩], checker := { interner } }, hrows.1,
    hrows.2.1, circular_constraints_iff hlower hreach hrows.2.2 hnone⟩

end Erasing

end Typokat.Check
