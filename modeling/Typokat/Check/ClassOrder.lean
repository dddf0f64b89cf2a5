import Typokat.Check.ClassGraph

/-!
# The Construction Order of a Component (`checker/classes/construction.rs`)

The classes of one dependency component are built in an order in which heritage targets
come first.  Inside a heritage cycle that is not possible; there only the edges to classes
that come earlier in the source are kept.  A cycle through extends edges poisons the
component unless every such edge lies on a cycle that instance heritage closes.

## Main Results

- `isRetained_iff` : which heritage edges decide the order
- `heritageConstructionOrder_spec` : the order exists, has every class of the component once,
  and is the greedy one by the source order
-/

namespace Typokat.Check

open Types Lib Std.TreeMap DependencyGraph Option Std

/-- A computation that may report an error; `none` stands for a panic or for missing fuel. -/
abbrev Fallible (A : Type) := ExceptT ClassPublicationError Option A

section Order

variable {Ticket : Type}

/-- `drafts.get(&class).ok_or(InvalidFinalRegistry)`. -/
def draftOf (drafts : ClassDrafts Ticket) (classId : ClassId) : Fallible (ClassDraft Ticket) :=
  match drafts[classId]? with
  | some draft => return draft
  | none => throw .invalidFinalRegistry

/-! ## §1 Heritage inside a component -/

/-- The targets of a list of heritage clauses that are among the members. -/
def memberTargets (members : Std.TreeSet ClassId) (heritage : List (HeritageDependency Ticket)) :
    Std.TreeSet ClassId :=
  Std.TreeSet.ofList ((heritage.map (fun clause => clause.target)).filter members.contains)

/-- The heritage edges between the classes of a component. -/
def heritageGraph (classes : List ClassId) (drafts : ClassDrafts Ticket) :
    Fallible (DependencyGraph ClassId) := do
  let members := Std.TreeSet.ofList classes
  let rows ← classes.mapM (fun classId => do
    let draft ← draftOf drafts classId
    return (classId, memberTargets members draft.allHeritage))
  return Std.TreeMap.ofList rows

variable (graph : DependencyGraph ClassId)

/-- `component.len() > 1` or a single class that depends on itself. -/
def isCyclic (component : List ClassId) : Bool :=
  decide (component.length > 1)
    || component.head?.any (fun classId => (graph.targets classId).contains classId)

/-- The extends edges of one heritage component. -/
def hardGraph (component : List ClassId) (drafts : ClassDrafts Ticket) :
    Fallible (DependencyGraph ClassId) := do
  let members := Std.TreeSet.ofList component
  let rows ← component.mapM (fun classId => do
    let draft ← draftOf drafts classId
    return (classId, memberTargets members draft.heritage.toList))
  return Std.TreeMap.ofList rows

/-- Whether a class of the heritage component has instance heritage inside it. -/
def hasSoft (component : List ClassId) (drafts : ClassDrafts Ticket) : Fallible Bool := do
  let members := Std.TreeSet.ofList component
  let flags ← component.mapM (fun classId => do
    let draft ← draftOf drafts classId
    return draft.instanceHeritage.any (fun clause => members.contains clause.target))
  return flags.any id

/-- A cyclic heritage component is recoverable when it has edges of both kinds and its
    extends edges alone close no cycle. -/
def isRecoverable (component : List ClassId) (drafts : ClassDrafts Ticket) : Fallible Bool := do
  if !isCyclic graph component then return false
  let hard ← hardGraph component drafts
  let soft ← hasSoft component drafts
  let hasHard := hard.values.any (fun targets => !targets.isEmpty)
  let hardCycle := (dependencyFirstSccs hard).any (isCyclic hard)
  return hasHard && soft && !hardCycle

/-- The loop over the extends edges inside the component: each must lie in a recoverable
    heritage component, and there must be one. -/
def checkHardEdges (members : Std.TreeSet ClassId) (positions : Std.TreeMap ClassId Nat)
    (recoverable : Std.TreeSet Nat) (drafts : ClassDrafts Ticket) :
    List ClassId → Nat → Fallible Bool
  | [], internalHardEdges => return decide (internalHardEdges > 0)
  | classId :: classes, internalHardEdges => do
    let draft ← draftOf drafts classId
    match draft.heritage with
    | none => checkHardEdges members positions recoverable drafts classes internalHardEdges
    | some clause =>
      if !members.contains clause.target then
        checkHardEdges members positions recoverable drafts classes internalHardEdges
      else if positions[classId]? ≠ positions[clause.target]?
          || !positions[classId]?.any recoverable.contains then
        return false
      else checkHardEdges members positions recoverable drafts classes (internalHardEdges + 1)

/-- `has_recoverable_mixed_heritage_cycle`. -/
def hasRecoverableMixedHeritageCycle (classes : List ClassId) (drafts : ClassDrafts Ticket) :
    Fallible Bool := do
  let members := Std.TreeSet.ofList classes
  let combined ← heritageGraph classes drafts
  let components := dependencyFirstSccs combined
  let recoverable ← components.zipIdx.foldlM (fun (recoverable : Std.TreeSet Nat) entry => do
    return if ← isRecoverable combined entry.1 drafts then recoverable.insert entry.2
      else recoverable) ∅
  checkHardEdges members (componentOf components) recoverable drafts classes 0

/-! ## §2 The order -/

/-- The positions of the cyclic heritage components. -/
def cyclicComponents (components : List (List ClassId)) :
    Std.TreeSet Nat :=
  components.zipIdx.foldl (fun (cyclic : Std.TreeSet Nat) entry =>
    if isCyclic graph entry.1 then cyclic.insert entry.2 else cyclic) ∅

/-- Whether an edge decides the order: edges inside a cyclic heritage component only when
    they lead to a class that comes earlier in the source. -/
def isRetained (positions : Std.TreeMap ClassId Nat) (cyclic : Std.TreeSet Nat)
    (drafts : ClassDrafts Ticket) (draft : ClassDraft Ticket) (classId target : ClassId) : Bool :=
  positions[classId]? ≠ positions[target]?
    || !positions[classId]?.any cyclic.contains
    || drafts[target]?.any (fun base => decide (base.recoveryOrder < draft.recoveryOrder))

/-- The loop state: what every class still waits for, and the classes that are ready. -/
structure OrderState where
  dependencies : Std.TreeMap ClassId (Std.TreeSet ClassId)
  ready : Std.TreeSet (ClassRecoveryOrder ×ₗ ClassId)

/-- Drop an emitted class from what a dependent waits for. -/
def OrderState.release (drafts : ClassDrafts Ticket) (emitted : ClassId) (state : OrderState)
    (dependent : ClassId) : Fallible OrderState :=
  match state.dependencies[dependent]? with
  | none => throw .invalidFinalRegistry
  | some pending => do
    let pending := pending.erase emitted
    let dependencies := state.dependencies.insert dependent pending
    if pending.isEmpty then
      let draft ← draftOf drafts dependent
      return ⟨dependencies, state.ready.insert (toLex (draft.recoveryOrder, dependent))⟩
    else return ⟨dependencies, state.ready⟩

/-- The loop over the ready classes, the earliest in the source first. -/
def takeReady (drafts : ClassDrafts Ticket) (dependents : Std.TreeMap ClassId (Std.TreeSet ClassId)) :
    Nat → OrderState → Fallible (List ClassId)
  | fuel, state =>
    match state.ready.toList.head? with
    | none => return []
    | some entry =>
      match fuel with
      | 0 => ExceptT.mk none
      | fuel + 1 => do
        let classId := (ofLex entry).2
        let state ← (dependents.getD classId ∅).toList.foldlM
          (OrderState.release drafts classId) ⟨state.dependencies, state.ready.erase entry⟩
        let rest ← takeReady drafts dependents fuel state
        return classId :: rest

/-- The edges that decide the order, from both ends. -/
structure OrderEdges where
  dependencies : Std.TreeMap ClassId (Std.TreeSet ClassId)
  dependents : Std.TreeMap ClassId (Std.TreeSet ClassId)

/-- The retained edges of one class. -/
def retainedTargets (positions : Std.TreeMap ClassId Nat) (cyclic : Std.TreeSet Nat)
    (drafts : ClassDrafts Ticket) (classId : ClassId) :
    Fallible (Std.TreeSet ClassId) := do
  let draft ← draftOf drafts classId
  return Std.TreeSet.ofList ((graph.targets classId).filter
    (isRetained positions cyclic drafts draft classId))

/-- Record the retained edges of one class. -/
def OrderEdges.record (edges : OrderEdges) (classId : ClassId) (retained : Std.TreeSet ClassId) :
    OrderEdges where
  dependencies := edges.dependencies.insert classId retained
  dependents := retained.foldl (fun dependents target =>
    dependents.insert target ((dependents.getD target ∅).insert classId)) edges.dependents

/-- The retained edges of all classes of the component. -/
def orderEdges (classes : List ClassId) (drafts : ClassDrafts Ticket) : Fallible OrderEdges :=
  let components := dependencyFirstSccs graph
  let positions := componentOf components
  let cyclic := cyclicComponents graph components
  classes.foldlM (fun edges classId => do
    return edges.record classId (← retainedTargets graph positions cyclic drafts classId))
    ⟨∅, Std.TreeMap.ofList (classes.map (fun classId => (classId, ∅)))⟩

/-- The classes that wait for nothing. -/
def readyClasses (dependencies : Std.TreeMap ClassId (Std.TreeSet ClassId))
    (drafts : ClassDrafts Ticket) : Fallible (Std.TreeSet (ClassRecoveryOrder ×ₗ ClassId)) :=
  dependencies.toList.foldlM (fun ready row => do
    if row.2.isEmpty then
      -- `expect("construction-order class has one draft")`
      match drafts[row.1]? with
      | some draft => return ready.insert (toLex (draft.recoveryOrder, row.1))
      | none => ExceptT.mk none
    else return ready) ∅

/-- `heritage_construction_order`. -/
def heritageConstructionOrder (classes : List ClassId) (drafts : ClassDrafts Ticket) :
    Fallible (List ClassId) := do
  let graph ← heritageGraph classes drafts
  let edges ← orderEdges graph classes drafts
  let ready ← readyClasses edges.dependencies drafts
  let order ← takeReady drafts edges.dependents classes.length ⟨edges.dependencies, ready⟩
  if order.length ≠ classes.length then throw .invalidFinalRegistry
  return order

end Order

/-! ## §3 The heritage graph of a component -/

section Graph

variable {Ticket : Type} {classes : List ClassId} {drafts : ClassDrafts Ticket}

/-- A class of the component has a heritage clause for another one. -/
def HeritageEdge (drafts : ClassDrafts Ticket) (classes : List ClassId) (classId target : ClassId) :
    Prop :=
  classId ∈ classes ∧ target ∈ classes ∧
    ∃ draft ∈ drafts[classId]?, ∃ clause ∈ draft.allHeritage, clause.target = target

theorem mapM_eq_pure {A B : Type} {f : A → Fallible B} {g : A → B} {entries : List A}
    (h : ∀ entry ∈ entries, f entry = pure (g entry)) :
    entries.mapM f = pure (entries.map g) := by
  induction entries with
  | nil => rfl
  | cons entry entries ih =>
    obtain ⟨hentry, hrest⟩ := List.forall_mem_cons.mp h
    rw [List.mapM_cons, hentry, ih hrest]
    rfl

theorem foldlM_eq_pure {A S : Type} {f : S → A → Fallible S} {g : S → A → S} (inv : S → Prop)
    {entries : List A} : ∀ state, inv state →
    (∀ entry ∈ entries, ∀ state, inv state →
      f state entry = pure (g state entry) ∧ inv (g state entry)) →
    entries.foldlM f state = pure (entries.foldl g state) := by
  induction entries with
  | nil => exact fun state _ _ => rfl
  | cons entry entries ih =>
    intro state hstate h
    obtain ⟨hentry, hrest⟩ := List.forall_mem_cons.mp h
    obtain ⟨heq, hinv⟩ := hentry state hstate
    rw [List.foldlM_cons, heq, pure_bind, ih (g state entry) hinv hrest]
    rfl

theorem draftOf_eq_pure {classId : ClassId} {draft : ClassDraft Ticket}
    (h : drafts[classId]? = some draft) : draftOf drafts classId = pure draft := by
  unfold draftOf
  rw [h]

theorem mem_ofList_iff {K : Type} [LinearOrder K] {entries : List K} {entry : K} :
    entry ∈ TreeSet.ofList entries ↔ entry ∈ entries := by
  rw [TreeSet.mem_ofList, List.contains_iff_mem]

theorem mem_memberTargets {heritage : List (HeritageDependency Ticket)} {target : ClassId} :
    target ∈ memberTargets (TreeSet.ofList classes) heritage ↔
      target ∈ classes ∧ ∃ clause ∈ heritage, clause.target = target := by
  unfold memberTargets
  rw [mem_ofList_iff, List.mem_filter, List.mem_map, TreeSet.contains_iff_mem, mem_ofList_iff]
  exact and_comm

/-- A map with one entry for every key of a list. -/
theorem getElem?_ofList_map {K V : Type} [LinearOrder K] {keys : List K} (hnodup : keys.Nodup)
    (value : K → V) (key : K) :
    (ofList (keys.map (fun key => (key, value key))))[key]? =
      if key ∈ keys then some (value key) else none := by
  have hkeys : (keys.map (fun key => (key, value key))).map Prod.fst = keys := by
    rw [List.map_map]
    exact List.map_id _
  split
  · rename_i hmem
    refine getElem?_ofList_of_mem ReflCmp.compare_self ?_
      (List.mem_map_of_mem hmem)
    rw [List.pairwise_map]
    refine hnodup.imp (fun hne => ?_)
    rw [LawfulEqCmp.compare_eq_iff_eq]
    exact hne
  · rename_i hout
    refine getElem?_ofList_of_contains_eq_false ?_
    rw [hkeys]
    simpa using hout

theorem values_eq_map {K V : Type} [LinearOrder K] (map : TreeMap K V) :
    map.values = map.toList.map Prod.snd := by
  have hfold : map.values = map.foldr (fun _ value values => value :: values) [] := rfl
  rw [hfold, foldr_eq_foldr_toList]
  induction map.toList with
  | nil => rfl
  | cons row rows ih => rw [List.foldr_cons, ih, List.map_cons]

/-- The graph of the clauses that `clauses` picks from every draft. -/
theorem clauseGraph_spec (hnodup : classes.Nodup) (hdrafts : ∀ classId ∈ classes, classId ∈ drafts)
    (clauses : ClassDraft Ticket → List (HeritageDependency Ticket)) :
    ∃ graph : DependencyGraph ClassId,
      (do
        let rows ← classes.mapM (fun classId => do
          let draft ← draftOf drafts classId
          return (classId, memberTargets (TreeSet.ofList classes) (clauses draft)))
        return ofList rows) = (pure graph : Fallible (DependencyGraph ClassId)) ∧
      (∀ classId, classId ∈ graph ↔ classId ∈ classes) ∧
      ∀ classId target, graph.Edge classId target ↔ classId ∈ classes ∧ target ∈ classes ∧
        ∃ draft ∈ drafts[classId]?, ∃ clause ∈ clauses draft, clause.target = target := by
  let value (classId : ClassId) : TreeSet ClassId :=
    (drafts[classId]?.map (fun draft =>
      memberTargets (TreeSet.ofList classes) (clauses draft))).getD ∅
  have hrow : ∀ classId ∈ classes, (do
      let draft ← draftOf drafts classId
      return (classId, memberTargets (TreeSet.ofList classes) (clauses draft))) =
      (pure (classId, value classId) : Fallible _) := by
    intro classId hmem
    have hdraft := hdrafts classId hmem
    rw [mem_iff_isSome_getElem?, isSome_iff_exists] at hdraft
    obtain ⟨draft, hdraft⟩ := hdraft
    rw [draftOf_eq_pure hdraft, pure_bind]
    simp only [value, hdraft, map_some, getD_some]
  refine ⟨ofList (classes.map (fun classId => (classId, value classId))), ?_, ?_, ?_⟩
  · rw [mapM_eq_pure hrow]
    rfl
  · intro classId
    rw [mem_iff_isSome_getElem?, getElem?_ofList_map hnodup]
    split <;> simp_all
  · intro classId target
    rw [DependencyGraph.Edge, mem_targets, getElem?_ofList_map hnodup]
    constructor
    · rintro ⟨targets, hget, hmem⟩
      split at hget
      · rename_i hclass
        cases hget
        cases hdraft : drafts[classId]? with
        | none => simp [value, hdraft] at hmem
        | some draft =>
          simp only [value, hdraft, map_some, getD_some] at hmem
          obtain ⟨htarget, clause, hclause, heq⟩ := mem_memberTargets.mp hmem
          exact ⟨hclass, htarget, draft, rfl, clause, hclause, heq⟩
      · cases hget
    · rintro ⟨hclass, htarget, draft, hdraft, clause, hclause, heq⟩
      refine ⟨value classId, if_pos hclass, ?_⟩
      simp only [value, mem_def.mp hdraft, map_some, getD_some]
      exact mem_memberTargets.mpr ⟨htarget, clause, hclause, heq⟩

theorem heritageGraph_spec (hnodup : classes.Nodup)
    (hdrafts : ∀ classId ∈ classes, classId ∈ drafts) :
    ∃ graph, heritageGraph classes drafts = pure graph ∧
      (∀ classId, classId ∈ graph ↔ classId ∈ classes) ∧
      ∀ classId target, graph.Edge classId target ↔
        HeritageEdge drafts classes classId target :=
  clauseGraph_spec hnodup hdrafts ClassDraft.allHeritage

end Graph

/-! ## §4 The edges that decide the order -/

section Retained

variable {graph : DependencyGraph ClassId}

theorem exists_position {classId : ClassId} (hnode : graph.IsNode classId) :
    ∃ position component, (componentOf (dependencyFirstSccs graph))[classId]? = some position ∧
      (dependencyFirstSccs graph)[position]? = some component ∧ classId ∈ component := by
  have h := dependencyFirstSccs_canonical graph
  obtain ⟨component, hcomponent, hin⟩ := h.exists_component hnode
  obtain ⟨position, hget⟩ := List.getElem?_of_mem hcomponent
  exact ⟨position, component, (getElem?_componentOf h.nodup).mpr ⟨component, hget, hin⟩, hget, hin⟩

variable {classId target : ClassId}

/-- Two classes have the same position when each reaches the other. -/
theorem position_eq_iff (hnode : graph.IsNode classId) (htarget : graph.IsNode target) :
    (componentOf (dependencyFirstSccs graph))[classId]? =
        (componentOf (dependencyFirstSccs graph))[target]? ↔
      Mutual graph.Edge classId target := by
  have h := dependencyFirstSccs_canonical graph
  obtain ⟨position, component, hposition, hget, hin⟩ := exists_position hnode
  obtain ⟨other, second, hother, hget', hin'⟩ := exists_position htarget
  rw [hposition, hother, some.injEq]
  constructor
  · rintro rfl
    cases hget.symm.trans hget'
    exact ((h.members component (List.mem_of_getElem? hget) classId hin target).mp hin').2
  · intro hmutual
    refine position_eq h.toPartition hget hget' ?_ hin'
    exact (h.members component (List.mem_of_getElem? hget) classId hin target).mpr
      ⟨htarget, hmutual⟩

/-- An edge to an earlier component. -/
theorem position_lt_of_edge (hedge : graph.Edge classId target) {position other : Nat}
    (hposition : (componentOf (dependencyFirstSccs graph))[classId]? = some position)
    (hother : (componentOf (dependencyFirstSccs graph))[target]? = some other)
    (hne : position ≠ other) : other < position := by
  have hnodup := (dependencyFirstSccs_canonical graph).nodup
  obtain ⟨component, hget, hin⟩ := (getElem?_componentOf hnodup).mp hposition
  obtain ⟨second, hget', hin'⟩ := (getElem?_componentOf hnodup).mp hother
  exact position_lt hget hget' hne ⟨classId, hin, target, hin', hedge⟩

/-- A component with an edge inside is cyclic. -/
theorem isCyclic_of_edge {component : List ClassId} (hclass : classId ∈ component)
    (htarget : target ∈ component) (hedge : graph.Edge classId target) :
    isCyclic graph component = true := by
  unfold isCyclic
  match component with
  | [] => simp at hclass
  | [only] =>
    rw [List.mem_singleton] at hclass htarget
    subst hclass htarget
    rw [Bool.or_eq_true]
    refine .inr ?_
    simp only [List.head?_cons, any_some, List.contains_iff_mem]
    exact hedge
  | first :: second :: rest => simp

theorem mem_cyclicComponents {position : Nat} :
    position ∈ cyclicComponents graph (dependencyFirstSccs graph) ↔
      ∃ component ∈ (dependencyFirstSccs graph)[position]?, isCyclic graph component = true := by
  unfold cyclicComponents
  have hfold := (foldl_collects
    (f := fun (cyclic : TreeSet Nat) (entry : List ClassId × Nat) =>
      if isCyclic graph entry.1 then cyclic.insert entry.2 else cyclic) (fun _ => True)
    (fun cyclic => position ∈ cyclic)
    (fun entry => isCyclic graph entry.1 = true ∧ position = entry.2)
    (dependencyFirstSccs graph).zipIdx ∅ trivial (fun entry _ cyclic _ => ⟨trivial, by
      split
      · rename_i hin
        rw [mem_insert_iff, or_comm]
        simp [hin]
      · rename_i hout
        simp [hout]⟩)).2
  rw [hfold]
  simp only [TreeSet.not_mem_emptyc, false_or, Prod.exists, List.mem_zipIdx_iff_getElem?]
  constructor
  · rintro ⟨component, index, hget, hcyclic, rfl⟩
    exact ⟨component, hget, hcyclic⟩
  · rintro ⟨component, hget, hcyclic⟩
    exact ⟨component, position, hget, hcyclic, rfl⟩

variable {Ticket : Type} {drafts : ClassDrafts Ticket}

/-- **An edge decides the order** unless it lies on a heritage cycle and leads to a class that
does not come earlier in the source. -/
theorem isRetained_iff {draft base : ClassDraft Ticket} (hedge : graph.Edge classId target)
    (hbase : drafts[target]? = some base) :
    isRetained (componentOf (dependencyFirstSccs graph))
        (cyclicComponents graph (dependencyFirstSccs graph)) drafts draft classId target = true ↔
      (Mutual graph.Edge classId target → base.recoveryOrder < draft.recoveryOrder) := by
  obtain ⟨position, component, hposition, hget, hin⟩ := exists_position hedge.isNode_source
  have hsame := position_eq_iff hedge.isNode_source hedge.isNode_target
  unfold isRetained
  rw [hbase]
  simp only [ne_eq, decide_not, Bool.or_eq_true, Bool.not_eq_true', decide_eq_false_iff_not,
    any_some, decide_eq_true_eq, hsame]
  constructor
  · rintro ((hne | hacyclic) | hless) hmutual
    · exact absurd hmutual hne
    · have htarget : target ∈ component :=
        ((dependencyFirstSccs_canonical graph).members component (List.mem_of_getElem? hget)
          classId hin target).mpr ⟨hedge.isNode_target, hmutual⟩
      have hcyclic := mem_cyclicComponents.mpr
        ⟨component, hget, isCyclic_of_edge hin htarget hedge⟩
      rw [hposition, any_some, ← Bool.not_eq_true, TreeSet.contains_iff_mem] at hacyclic
      exact absurd hcyclic hacyclic
    · exact hless
  · intro hless
    by_cases hmutual : Mutual graph.Edge classId target
    · exact .inr (hless hmutual)
    · exact .inl (.inl hmutual)

/-- A class has to be built after one of its heritage targets: after every one that is not on
    a heritage cycle with it, and after those on a cycle that come earlier in the source. -/
def BuiltAfter (drafts : ClassDrafts Ticket) (classes : List ClassId) (classId target : ClassId) :
    Prop :=
  HeritageEdge drafts classes classId target ∧
    (Mutual (HeritageEdge drafts classes) classId target →
      ∀ draft ∈ drafts[classId]?, ∀ base ∈ drafts[target]?,
        base.recoveryOrder < draft.recoveryOrder)

/-- The retained edges of a class, when its draft is there. -/
def retainedOf (graph : DependencyGraph ClassId) (drafts : ClassDrafts Ticket) (classId : ClassId) :
    Std.TreeSet ClassId :=
  let components := dependencyFirstSccs graph
  (drafts[classId]?.map (fun draft => Std.TreeSet.ofList ((graph.targets classId).filter
    (isRetained (componentOf components) (cyclicComponents graph components) drafts draft
      classId)))).getD ∅

variable {classes : List ClassId}

theorem exists_draft (hdrafts : ∀ classId ∈ classes, classId ∈ drafts) {classId : ClassId}
    (hclass : classId ∈ classes) : ∃ draft, drafts[classId]? = some draft := by
  have hdraft := hdrafts classId hclass
  rwa [mem_iff_isSome_getElem?, isSome_iff_exists] at hdraft

theorem BuiltAfter.mem (h : BuiltAfter drafts classes classId target) :
    classId ∈ classes ∧ target ∈ classes :=
  ⟨h.1.1, h.1.2.1⟩

theorem BuiltAfter.irrefl (classId : ClassId) : ¬ BuiltAfter drafts classes classId classId := by
  rintro ⟨⟨_, _, draft, hdraft, _⟩, hless⟩
  exact lt_irrefl _ (hless (Mutual.refl classId) draft hdraft draft hdraft)

theorem mem_retainedOf (hdrafts : ∀ classId ∈ classes, classId ∈ drafts)
    (hedges : ∀ classId target, graph.Edge classId target ↔
      HeritageEdge drafts classes classId target) :
    target ∈ retainedOf graph drafts classId ↔ BuiltAfter drafts classes classId target := by
  have hrelation : HeritageEdge drafts classes = graph.Edge := by
    funext classId target
    exact propext (hedges classId target).symm
  have hretained : ∀ draft, drafts[classId]? = some draft →
      (target ∈ retainedOf graph drafts classId ↔ graph.Edge classId target ∧
        isRetained (componentOf (dependencyFirstSccs graph))
          (cyclicComponents graph (dependencyFirstSccs graph)) drafts draft classId target =
            true) := by
    intro draft hdraft
    simp only [retainedOf, hdraft, map_some, getD_some]
    rw [mem_ofList_iff, List.mem_filter]
    exact Iff.rfl
  unfold BuiltAfter
  rw [hrelation]
  constructor
  · intro hmem
    cases hdraft : drafts[classId]? with
    | none => simp [retainedOf, hdraft] at hmem
    | some draft =>
      obtain ⟨hedge, hkept⟩ := (hretained draft hdraft).mp hmem
      obtain ⟨base, hbase⟩ := exists_draft hdrafts ((hedges _ _).mp hedge).2.1
      refine ⟨hedge, fun hmutual other hother base' hbase' => ?_⟩
      cases hother
      cases hbase.symm.trans hbase'
      exact (isRetained_iff hedge hbase).mp hkept hmutual
  · rintro ⟨hedge, hless⟩
    obtain ⟨draft, hdraft⟩ := exists_draft hdrafts ((hedges _ _).mp hedge).1
    obtain ⟨base, hbase⟩ := exists_draft hdrafts ((hedges _ _).mp hedge).2.1
    exact (hretained draft hdraft).mpr ⟨hedge, (isRetained_iff hedge hbase).mpr
      (fun hmutual => hless hmutual draft hdraft base hbase)⟩

theorem retainedTargets_eq_pure (hdrafts : ∀ classId ∈ classes, classId ∈ drafts)
    {classId : ClassId} (hclass : classId ∈ classes) :
    retainedTargets graph (componentOf (dependencyFirstSccs graph))
        (cyclicComponents graph (dependencyFirstSccs graph)) drafts classId =
      pure (retainedOf graph drafts classId) := by
  obtain ⟨draft, hdraft⟩ := exists_draft hdrafts hclass
  unfold retainedTargets
  rw [draftOf_eq_pure hdraft, pure_bind]
  simp only [retainedOf, hdraft, map_some, getD_some]

/-- Recording the edges of one class adds them on both ends. -/
theorem edge_record (edges : OrderEdges) (recorded : ClassId) (retained : TreeSet ClassId)
    (classId target : ClassId) :
    (DependencyGraph.Edge (edges.record recorded retained).dependencies classId target ↔
      if classId = recorded then target ∈ retained
      else DependencyGraph.Edge edges.dependencies classId target) ∧
    (DependencyGraph.Edge (edges.record recorded retained).dependents target classId ↔
      DependencyGraph.Edge edges.dependents target classId ∨
        (classId = recorded ∧ target ∈ retained)) := by
  constructor
  · unfold DependencyGraph.Edge OrderEdges.record
    rw [mem_targets, getElem?_insert]
    by_cases heq : recorded = classId
    · subst heq
      simp
    · have hne : compare recorded classId ≠ .eq := by
        rw [ne_eq, LawfulEqCmp.compare_eq_iff_eq]
        exact heq
      have hne' : classId ≠ recorded := fun h => heq h.symm
      simp only [hne, if_false, hne']
      exact mem_targets.symm
  · unfold DependencyGraph.Edge OrderEdges.record
    rw [TreeSet.foldl_eq_foldl_toList, (foldl_collects (fun _ => True)
      (fun dependents : DependencyGraph ClassId => classId ∈ dependents.targets target)
      (fun entry => target = entry ∧ classId = recorded) retained.toList edges.dependents trivial
      (fun entry _ dependents _ => ⟨trivial, mem_targets_insert⟩)).2]
    simp [and_comm]

/-- **The retained edges** of all classes, from both ends. -/
theorem orderEdges_spec (hnodup : classes.Nodup) (hdrafts : ∀ classId ∈ classes, classId ∈ drafts)
    (hedges : ∀ classId target, graph.Edge classId target ↔
      HeritageEdge drafts classes classId target) :
    ∃ edges, orderEdges graph classes drafts = pure edges ∧
      (∀ classId, classId ∈ edges.dependencies ↔ classId ∈ classes) ∧
      (∀ classId target, DependencyGraph.Edge edges.dependencies classId target ↔
        BuiltAfter drafts classes classId target) ∧
      ∀ classId target, DependencyGraph.Edge edges.dependents target classId ↔
        BuiltAfter drafts classes classId target := by
  let step (edges : OrderEdges) (classId : ClassId) : OrderEdges :=
    edges.record classId (retainedOf graph drafts classId)
  let start : OrderEdges := ⟨∅, ofList (classes.map (fun classId => (classId, ∅)))⟩
  -- with all drafts there, no step fails
  have hpure : orderEdges graph classes drafts = pure (classes.foldl step start) := by
    unfold orderEdges
    refine foldlM_eq_pure (fun _ => True) _ trivial (fun classId hclass edges _ => ⟨?_, trivial⟩)
    rw [retainedTargets_eq_pure hdrafts hclass, pure_bind]
  refine ⟨classes.foldl step start, hpure, fun classId => ?_, fun classId target => ?_,
    fun classId target => ?_⟩
  · rw [(foldl_collects (fun _ => True) (fun edges : OrderEdges => classId ∈ edges.dependencies)
      (fun other => classId = other) classes start trivial (fun other _ edges _ => ⟨trivial, by
        simp only [step, OrderEdges.record, mem_insert, LawfulEqCmp.compare_eq_iff_eq]
        rw [or_comm, eq_comm]⟩)).2]
    simp [start]
  · have hfold := (foldl_collects (f := step)
      (fun edges => ∀ classId target, DependencyGraph.Edge edges.dependencies classId target →
        BuiltAfter drafts classes classId target)
      (fun edges : OrderEdges => DependencyGraph.Edge edges.dependencies classId target)
      (fun other => classId = other ∧ BuiltAfter drafts classes classId target) classes start
      (by
        intro classId target hedge
        obtain ⟨_, hget, _⟩ := mem_targets.mp hedge
        simp [start] at hget)
      (fun other _ edges hinv => by
        constructor
        · intro classId target hedge
          have hrecord := (edge_record edges other (retainedOf graph drafts other) classId
            target).1.mp hedge
          split at hrecord
          · rename_i heq
            subst heq
            exact (mem_retainedOf hdrafts hedges).mp hrecord
          · exact hinv classId target hrecord
        · rw [(edge_record edges other (retainedOf graph drafts other) classId target).1]
          split
          · rename_i heq
            subst heq
            rw [mem_retainedOf hdrafts hedges]
            exact ⟨fun h => .inr ⟨rfl, h⟩, fun h => h.elim (hinv _ _) And.right⟩
          · rename_i hne
            simp [hne])).2
    rw [hfold]
    constructor
    · rintro (hedge | ⟨_, _, _, h⟩)
      · obtain ⟨_, hget, _⟩ := mem_targets.mp hedge
        simp [start] at hget
      · exact h
    · exact fun h => .inr ⟨classId, h.mem.1, rfl, h⟩
  · have hfold := (foldl_collects (f := step) (fun _ => True)
      (fun edges : OrderEdges => DependencyGraph.Edge edges.dependents target classId)
      (fun other => classId = other ∧ BuiltAfter drafts classes classId target) classes start
      trivial (fun other _ edges _ => ⟨trivial, by
        rw [(edge_record edges other (retainedOf graph drafts other) classId target).2]
        refine or_congr Iff.rfl (and_congr_right (fun heq => ?_))
        subst heq
        exact mem_retainedOf hdrafts hedges⟩)).2
    rw [hfold]
    constructor
    · rintro (hedge | ⟨_, _, _, h⟩)
      · obtain ⟨dependents, hget, hmem⟩ := mem_targets.mp hedge
        rw [getElem?_ofList_map hnodup (fun _ => ∅)] at hget
        split at hget
        · cases hget
          exact absurd hmem TreeSet.not_mem_emptyc
        · cases hget
      · exact h
    · exact fun h => .inr ⟨classId, h.mem.1, rfl, h⟩

end Retained

/-! ## §5 The loop over the ready classes -/

section Schedule

variable {Ticket : Type} {drafts : ClassDrafts Ticket} {classes : List ClassId}

/-- The place of a class in the source. -/
def recoveryOf (drafts : ClassDrafts Ticket) (classId : ClassId) : Option ClassRecoveryOrder :=
  drafts[classId]?.map (fun draft => draft.recoveryOrder)

/-- A class is taken before another one that is ready with it. -/
def TakenBefore (drafts : ClassDrafts Ticket) (classId other : ClassId) : Prop :=
  ∀ first ∈ recoveryOf drafts classId, ∀ second ∈ recoveryOf drafts other,
    toLex (first, classId) ≤ toLex (second, other)

theorem recoveryOf_eq_some {classId : ClassId} {recovery : ClassRecoveryOrder} :
    recoveryOf drafts classId = some recovery ↔
      ∃ draft, drafts[classId]? = some draft ∧ draft.recoveryOrder = recovery := by
  unfold recoveryOf
  rw [map_eq_some_iff]

/-- What `OrderState.release` computes when it does not fail. -/
def OrderState.released (drafts : ClassDrafts Ticket) (emitted : ClassId) (state : OrderState)
    (dependent : ClassId) : OrderState :=
  let pending := (state.dependencies.getD dependent ∅).erase emitted
  ⟨state.dependencies.insert dependent pending,
    if pending.isEmpty then
      (recoveryOf drafts dependent).elim state.ready
        (fun recovery => state.ready.insert (toLex (recovery, dependent)))
    else state.ready⟩

theorem OrderState.release_eq_pure {emitted dependent : ClassId} {state : OrderState}
    (hdependent : dependent ∈ state.dependencies) {draft : ClassDraft Ticket}
    (hdraft : drafts[dependent]? = some draft) :
    state.release drafts emitted dependent = pure (state.released drafts emitted dependent) := by
  rw [mem_iff_isSome_getElem?, isSome_iff_exists] at hdependent
  obtain ⟨pending, hpending⟩ := hdependent
  unfold OrderState.release OrderState.released
  rw [getD_eq_getD_getElem?, hpending]
  simp only [getD_some, recoveryOf, hdraft, map_some, elim_some]
  split
  · rw [draftOf_eq_pure hdraft, pure_bind]
  · rfl

/-- The state of the loop after the classes of `done`. -/
structure Scheduling (drafts : ClassDrafts Ticket) (classes done : List ClassId)
    (state : OrderState) : Prop where
  kahn : Kahn (· ∈ classes) (BuiltAfter drafts classes) done
    (DependencyGraph.Edge state.dependencies)
    (fun classId => ∃ recovery, toLex (recovery, classId) ∈ state.ready)
  keyed : ∀ recovery classId, toLex (recovery, classId) ∈ state.ready →
    recoveryOf drafts classId = some recovery
  keys : ∀ classId ∈ classes, classId ∈ state.dependencies

/-- Dropping an emitted class from what one dependent waits for. -/
theorem OrderState.released_spec (emitted : ClassId) {dependent : ClassId}
    {recovery : ClassRecoveryOrder} (hrecovery : recoveryOf drafts dependent = some recovery)
    (state : OrderState) :
    (∀ other target, DependencyGraph.Edge (state.released drafts emitted dependent).dependencies
        other target ↔
      DependencyGraph.Edge state.dependencies other target ∧
        ¬ (other = dependent ∧ target = emitted)) ∧
    ∀ first other, toLex (first, other) ∈ (state.released drafts emitted dependent).ready ↔
      toLex (first, other) ∈ state.ready ∨ (first = recovery ∧ other = dependent ∧
        ∀ target, DependencyGraph.Edge state.dependencies dependent target → target = emitted) := by
  constructor
  · intro other target
    simp only [OrderState.released, DependencyGraph.Edge]
    rw [mem_targets, getElem?_insert]
    by_cases heq : dependent = other
    · subst heq
      simp only [ReflCmp.compare_self, if_true, some.injEq, exists_eq_left', true_and,
        mem_erase_iff, mem_getD]
      exact and_comm
    · have hne : compare dependent other ≠ .eq := by
        rw [ne_eq, LawfulEqCmp.compare_eq_iff_eq]
        exact heq
      have hne' : other ≠ dependent := fun h => heq h.symm
      simp only [hne, if_false, hne', false_and, not_false_eq_true, and_true]
      exact mem_targets.symm
  · intro first other
    have hempty : ((state.dependencies.getD dependent ∅).erase emitted).isEmpty = true ↔
        ∀ target, DependencyGraph.Edge state.dependencies dependent target → target = emitted := by
      rw [TreeSet.isEmpty_iff_forall_not_mem]
      simp only [mem_erase_iff, mem_getD, DependencyGraph.Edge, not_and, ne_eq]
      exact forall_congr' (fun target => by tauto)
    simp only [OrderState.released, hrecovery, elim_some]
    split
    · rename_i hin
      rw [mem_insert_iff, EmbeddingLike.apply_eq_iff_eq, Prod.mk.injEq, or_comm]
      have hall := hempty.mp hin
      exact or_congr Iff.rfl ⟨fun h => ⟨h.1, h.2, hall⟩, fun h => ⟨h.1, h.2.1⟩⟩
    · rename_i hout
      rw [hempty] at hout
      simp only [hout, and_false, or_false]

/-- Taking a ready class moves the state on. -/
theorem Scheduling.take (hdrafts : ∀ classId ∈ classes, classId ∈ drafts)
    {dependents : TreeMap ClassId (TreeSet ClassId)}
    (hdependents : ∀ classId target, DependencyGraph.Edge dependents target classId ↔
      BuiltAfter drafts classes classId target)
    {done : List ClassId} {state : OrderState} (h : Scheduling drafts classes done state)
    {recovery : ClassRecoveryOrder} {classId : ClassId}
    (hready : toLex (recovery, classId) ∈ state.ready) :
    ∃ next, (dependents.getD classId ∅).toList.foldlM (OrderState.release drafts classId)
        ⟨state.dependencies, state.ready.erase (toLex (recovery, classId))⟩ = pure next ∧
      Scheduling drafts classes (done ++ [classId]) next := by
  have hmem : ∀ other, other ∈ (dependents.getD classId ∅).toList ↔
      other ∈ classes ∧ BuiltAfter drafts classes other classId := by
    intro other
    rw [TreeSet.mem_toList, mem_getD]
    exact (hdependents other classId).trans ⟨fun hother => ⟨hother.mem.1, hother⟩, And.right⟩
  let inv (state : OrderState) : Prop :=
    (∀ recovery classId, toLex (recovery, classId) ∈ state.ready →
      recoveryOf drafts classId = some recovery) ∧ ∀ classId ∈ classes, classId ∈ state.dependencies
  have hstart : inv ⟨state.dependencies, state.ready.erase (toLex (recovery, classId))⟩ :=
    ⟨fun first other hin => h.keyed first other (mem_erase_iff.mp hin).2, h.keys⟩
  have hstep : ∀ dependent ∈ (dependents.getD classId ∅).toList, ∀ state, inv state →
      state.release drafts classId dependent = pure (state.released drafts classId dependent) ∧
      inv (state.released drafts classId dependent) ∧
      (∀ other target, DependencyGraph.Edge
          (state.released drafts classId dependent).dependencies other target ↔
        DependencyGraph.Edge state.dependencies other target ∧
          ¬ (other = dependent ∧ target = classId)) ∧
      ∀ other, (∃ first, toLex (first, other) ∈ (state.released drafts classId dependent).ready) ↔
        (∃ first, toLex (first, other) ∈ state.ready) ∨ (other = dependent ∧
          ∀ target, DependencyGraph.Edge state.dependencies dependent target →
            target = classId) := by
    rintro dependent hdependent state ⟨hkeyed, hkeys⟩
    obtain ⟨hclass, _⟩ := (hmem dependent).mp hdependent
    obtain ⟨draft, hdraft⟩ := exists_draft hdrafts hclass
    have hrecovery : recoveryOf drafts dependent = some draft.recoveryOrder :=
      recoveryOf_eq_some.mpr ⟨draft, hdraft, rfl⟩
    obtain ⟨hedges, hset⟩ := OrderState.released_spec classId hrecovery state
    refine ⟨OrderState.release_eq_pure (hkeys dependent hclass) hdraft, ⟨?_, ?_⟩, hedges, ?_⟩
    · intro first other hin
      rcases (hset first other).mp hin with hin | ⟨rfl, rfl, _⟩
      · exact hkeyed first other hin
      · exact hrecovery
    · intro other hother
      exact mem_insert.mpr (.inr (hkeys other hother))
    · intro other
      simp only [hset, exists_or, exists_eq_left]
  have hpure := foldlM_eq_pure inv _ hstart (fun dependent hdependent state hinv =>
    ⟨(hstep dependent hdependent state hinv).1, (hstep dependent hdependent state hinv).2.1⟩)
  -- releasing its dependents is one step of Kahn's algorithm
  obtain ⟨hkahn, hkeyed, hkeys⟩ := Kahn.emit_foldl
    (fun state : OrderState => DependencyGraph.Edge state.dependencies)
    (fun state classId => ∃ recovery, toLex (recovery, classId) ∈ state.ready)
    (OrderState.released drafts classId) state
    ⟨state.dependencies, state.ready.erase (toLex (recovery, classId))⟩ h.kahn
    ⟨recovery, hready⟩ (BuiltAfter.irrefl classId) (fun _ _ => Iff.rfl)
    (exists_mem_erase_iff h.keyed hready) hmem inv hstart
    (fun dependent hdependent state hinv => (hstep dependent hdependent state hinv).2)
  exact ⟨_, hpure, hkahn, hkeyed, hkeys⟩

section Ranks

variable (hnodup : classes.Nodup) (hdrafts : ∀ classId ∈ classes, classId ∈ drafts)
include hnodup hdrafts

/-- Retained edges lead to earlier heritage components, and inside one to earlier classes. -/
theorem exists_rank :
    ∃ rank : ClassId → Nat ×ₗ WithBot ClassRecoveryOrder, ∀ classId target,
      BuiltAfter drafts classes classId target → rank target < rank classId := by
  obtain ⟨graph, _, _, hedges⟩ := heritageGraph_spec hnodup hdrafts
  refine ⟨fun classId => toLex
    ((componentOf (dependencyFirstSccs graph))[classId]?.getD 0, recoveryOf drafts classId), ?_⟩
  rintro classId target ⟨hheritage, hless⟩
  have hedge := (hedges classId target).mpr hheritage
  obtain ⟨position, _, hposition, _⟩ := exists_position hedge.isNode_source
  obtain ⟨other, _, hother, _⟩ := exists_position hedge.isNode_target
  rw [Prod.Lex.lt_iff]
  simp only [ofLex_toLex, hposition, hother, getD_some]
  by_cases heq : position = other
  · refine .inr ⟨heq.symm, ?_⟩
    have hmutual : Mutual graph.Edge classId target := by
      rw [← position_eq_iff hedge.isNode_source hedge.isNode_target, hposition, hother, heq]
    have hrelation : graph.Edge = HeritageEdge drafts classes := by
      funext classId target
      exact propext (hedges classId target)
    rw [hrelation] at hmutual
    obtain ⟨draft, hdraft⟩ := exists_draft hdrafts hheritage.1
    obtain ⟨base, hbase⟩ := exists_draft hdrafts hheritage.2.1
    simp only [recoveryOf, hdraft, hbase, map_some]
    exact WithBot.coe_lt_coe.mpr (hless hmutual draft hdraft base hbase)
  · exact .inl (position_lt_of_edge hedge hposition hother heq)

/-- When no class is ready, every class is taken. -/
theorem Scheduling.finished {done : List ClassId} {state : OrderState}
    (h : Scheduling drafts classes done state) (hnone : ∀ entry, entry ∉ state.ready) :
    GreedyRest (· ∈ classes) (BuiltAfter drafts classes) (TakenBefore drafts) done [] := by
  obtain ⟨rank, hrank⟩ := exists_rank hnodup hdrafts
  refine h.kahn.finished (h.kahn.complete (fun _ => Iff.rfl) rank (fun classId target _ hafter =>
    ⟨hafter.mem.2, hrank classId target hafter⟩) ?_)
  rintro classId ⟨recovery, hin⟩
  exact hnone _ hin

/-- **The loop over the ready classes** takes every class, with fuel for those that are left. -/
theorem takeReady_spec {dependents : TreeMap ClassId (TreeSet ClassId)}
    (hdependents : ∀ classId target, DependencyGraph.Edge dependents target classId ↔
      BuiltAfter drafts classes classId target) :
    ∀ (fuel : Nat) (done : List ClassId) (state : OrderState),
      Scheduling drafts classes done state → classes.length ≤ fuel + done.length →
      ∃ rest, takeReady drafts dependents fuel state = pure rest ∧
        GreedyRest (· ∈ classes) (BuiltAfter drafts classes) (TakenBefore drafts) done rest := by
  intro fuel
  induction fuel with
  | zero =>
    intro done state h hfuel
    cases hhead : state.ready.toList.head? with
    | none =>
      rw [takeReady, hhead]
      exact ⟨[], rfl, h.finished hnodup hdrafts (not_mem_of_head?_toList hhead)⟩
    | some entry =>
      have hlt := h.kahn.length_lt (fun _ hclass => hclass)
        ⟨(ofLex entry).1, (head?_toList_spec hhead).1⟩
      omega
  | succ fuel ih =>
    intro done state h hfuel
    rw [takeReady]
    cases hhead : state.ready.toList.head? with
    | none => exact ⟨[], rfl, h.finished hnodup hdrafts (not_mem_of_head?_toList hhead)⟩
    | some entry =>
      obtain ⟨hready, hmin⟩ := head?_toList_spec hhead
      obtain ⟨next, hpure, hnext⟩ := h.take hdrafts hdependents hready
      obtain ⟨rest, heq, horder⟩ := ih (done ++ [(ofLex entry).2]) next hnext
        (by rw [List.length_append, List.length_singleton]; omega)
      refine ⟨(ofLex entry).2 :: rest, ?_, horder.cons ?_ ?_⟩
      · refine (congrArg (fun step => step >>= _) hpure).trans ?_
        rw [pure_bind, heq, pure_bind]
      · exact ((h.kahn.ready_iff (ofLex entry).2).mp ⟨(ofLex entry).1, hready⟩).2.2
      · intro other hother hout hall first hfirst second hsecond
        obtain ⟨recovery, hin⟩ := (h.kahn.ready_iff other).mpr ⟨hother, hout, hall⟩
        have hsame : (ofLex entry).1 = first :=
          some.inj ((h.keyed _ _ hready).symm.trans hfirst)
        have hsame' : recovery = second := some.inj ((h.keyed _ _ hin).symm.trans hsecond)
        subst hsame hsame'
        exact hmin _ hin

end Ranks

/-- The classes that wait for nothing are ready at the start. -/
theorem readyClasses_spec (hdrafts : ∀ classId ∈ classes, classId ∈ drafts)
    {dependencies : TreeMap ClassId (TreeSet ClassId)}
    (hkeys : ∀ classId, classId ∈ dependencies ↔ classId ∈ classes)
    (hedges : ∀ classId target, DependencyGraph.Edge dependencies classId target ↔
      BuiltAfter drafts classes classId target) :
    ∃ ready, readyClasses dependencies drafts = pure ready ∧
      Scheduling drafts classes [] ⟨dependencies, ready⟩ := by
  let step (ready : TreeSet (ClassRecoveryOrder ×ₗ ClassId))
      (row : ClassId × TreeSet ClassId) : TreeSet (ClassRecoveryOrder ×ₗ ClassId) :=
    if row.2.isEmpty then (recoveryOf drafts row.1).elim ready
      (fun recovery => ready.insert (toLex (recovery, row.1)))
    else ready
  have hrow : ∀ row ∈ dependencies.toList, row.1 ∈ classes ∧
      ∀ target, target ∈ row.2 ↔ BuiltAfter drafts classes row.1 target := by
    intro row hmem
    have hget := mem_toList_iff_getElem?_eq_some.mp hmem
    constructor
    · rw [← hkeys, mem_iff_isSome_getElem?, hget]
      rfl
    · intro target
      rw [← hedges, DependencyGraph.Edge, mem_targets, hget]
      simp
  have hpure : readyClasses dependencies drafts = pure (dependencies.toList.foldl step ∅) := by
    unfold readyClasses
    refine foldlM_eq_pure (fun _ => True) _ trivial (fun row hmem ready _ => ⟨?_, trivial⟩)
    obtain ⟨draft, hdraft⟩ := exists_draft hdrafts (hrow row hmem).1
    simp only [step, recoveryOf, hdraft, map_some, elim_some]
    split <;> rfl
  -- the fold collects the rows without dependencies
  have hready : ∀ recovery classId,
      toLex (recovery, classId) ∈ dependencies.toList.foldl step ∅ ↔
        recoveryOf drafts classId = some recovery ∧ classId ∈ classes ∧
          ∀ target, ¬ BuiltAfter drafts classes classId target := by
    intro recovery classId
    have hfold := (foldl_collects (f := step) (fun _ => True)
      (fun ready => toLex (recovery, classId) ∈ ready)
      (fun row => recoveryOf drafts classId = some recovery ∧ classId = row.1 ∧
        ∀ target, ¬ BuiltAfter drafts classes classId target) dependencies.toList ∅ trivial
      (fun row hmem ready _ => ⟨trivial, by
        have hempty : row.2.isEmpty = true ↔
            ∀ target, ¬ BuiltAfter drafts classes row.1 target := by
          rw [TreeSet.isEmpty_iff_forall_not_mem]
          exact forall_congr' (fun target => not_congr ((hrow row hmem).2 target))
        obtain ⟨draft, hdraft⟩ := exists_draft hdrafts (hrow row hmem).1
        have hrecovery : recoveryOf drafts row.1 = some draft.recoveryOrder :=
          recoveryOf_eq_some.mpr ⟨draft, hdraft, rfl⟩
        simp only [step, hrecovery, elim_some]
        split
        · rename_i hin
          rw [mem_insert_iff, EmbeddingLike.apply_eq_iff_eq, Prod.mk.injEq, or_comm]
          refine or_congr Iff.rfl ⟨?_, ?_⟩
          · rintro ⟨rfl, rfl⟩
            exact ⟨hrecovery, rfl, hempty.mp hin⟩
          · rintro ⟨heq, rfl, _⟩
            exact ⟨some.inj (heq.symm.trans hrecovery), rfl⟩
        · rename_i hout
          rw [hempty] at hout
          refine ⟨.inl, fun h => h.resolve_right ?_⟩
          rintro ⟨_, rfl, hall⟩
          exact hout hall⟩)).2
    rw [hfold]
    constructor
    · rintro (hin | ⟨row, hmem, heq, rfl, hall⟩)
      · exact absurd hin TreeSet.not_mem_emptyc
      · exact ⟨heq, (hrow row hmem).1, hall⟩
    · rintro ⟨heq, hclass, hall⟩
      have hmem := (hkeys classId).mpr hclass
      rw [mem_iff_isSome_getElem?, isSome_iff_exists] at hmem
      obtain ⟨targets, hget⟩ := hmem
      exact .inr ⟨(classId, targets), mem_toList_iff_getElem?_eq_some.mpr hget, heq,
        rfl, hall⟩
  refine ⟨_, hpure, ⟨List.nodup_nil, by simp, fun classId target _ => ?_, fun classId => ?_,
    by simp⟩, fun recovery classId hin => ((hready recovery classId).mp hin).1,
    fun classId hclass => (hkeys classId).mpr hclass⟩
  · rw [hedges]
    simp
  · simp only [hready, exists_and_right, List.not_mem_nil, not_false_eq_true, true_and, imp_false]
    constructor
    · exact And.right
    · rintro ⟨hclass, hall⟩
      obtain ⟨draft, hdraft⟩ := exists_draft hdrafts hclass
      exact ⟨⟨_, recoveryOf_eq_some.mpr ⟨draft, hdraft, rfl⟩⟩, hclass, hall⟩

/-- **The construction order** of registered classes exists.  It has every class once; every
class comes after those it has to be built after, and otherwise earlier classes of the source
come first. -/
theorem heritageConstructionOrder_spec (hnodup : classes.Nodup)
    (hdrafts : ∀ classId ∈ classes, classId ∈ drafts) :
    ∃ order, heritageConstructionOrder classes drafts = pure order ∧
      GreedyRest (· ∈ classes) (BuiltAfter drafts classes) (TakenBefore drafts) [] order := by
  obtain ⟨graph, hgraph, _, hedges⟩ := heritageGraph_spec hnodup hdrafts
  obtain ⟨edges, hpure, hkeys, hdependencies, hdependents⟩ :=
    orderEdges_spec hnodup hdrafts hedges
  obtain ⟨ready, hready, hstart⟩ := readyClasses_spec hdrafts hkeys hdependencies
  obtain ⟨order, htake, hgreedy⟩ := takeReady_spec hnodup hdrafts hdependents classes.length []
    ⟨edges.dependencies, ready⟩ hstart (by simp)
  have hperm : order.Perm classes :=
    (List.perm_ext_iff_of_nodup hgreedy.nodup hnodup).mpr hgreedy.complete
  refine ⟨order, ?_, hgreedy⟩
  unfold heritageConstructionOrder
  rw [hgraph, pure_bind, hpure, pure_bind, hready, pure_bind, htake, pure_bind]
  simp only [hperm.length_eq, ne_eq, not_true_eq_false, if_false]

end Schedule

end Typokat.Check
