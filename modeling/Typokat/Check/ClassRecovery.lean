import Typokat.Check.ClassOrder

/-!
# Recoverable Heritage Cycles (`checker/classes/construction.rs`)

What `has_recoverable_mixed_heritage_cycle` decides, in terms of the heritage edges alone:
every extends edge inside the component lies on a heritage cycle that also runs through
instance heritage, and extends edges alone close no cycle there.

## Main Results

- `any_isCyclic_iff` : some component is cyclic iff some node reaches itself
- `hasRecoverableMixedHeritageCycle_spec` : the check succeeds on registered classes and
  decides `RecoverableCycle`
-/

namespace Typokat.Check

open Types Lib Std.TreeSet List Std Relation

/-! ## §1 Cyclic components -/

section Cycles

variable {graph : DependencyGraph ClassId}

/-- A component of the canonical order is cyclic iff one of its nodes lies on a cycle. -/
theorem isCyclic_iff {component : List ClassId} (hcomponent : component ∈ dependencyFirstSccs graph) :
    isCyclic graph component = true ↔
      ∃ node ∈ component, TransGen graph.Edge node node := by
  have h := dependencyFirstSccs_canonical graph
  constructor
  · intro hcyclic
    match component, hcomponent with
    | [], hcomponent => exact absurd rfl (h.nonempty _ hcomponent)
    | [only], hcomponent =>
      refine ⟨only, mem_singleton_self only, .single ?_⟩
      simpa [isCyclic, DependencyGraph.Edge] using hcyclic
    | first :: second :: rest, hcomponent =>
      have hmutual := ((h.members _ hcomponent first mem_cons_self second).mp (by simp)).2
      have hne : first ≠ second := by
        have hnodup := (nodup_flatten.mp h.nodup).1 _ hcomponent
        exact fun heq => (nodup_cons.mp hnodup).1 (heq ▸ mem_cons_self)
      refine ⟨first, mem_cons_self, ?_⟩
      rcases reflTransGen_iff_eq_or_transGen.mp hmutual.1 with heq | hpath
      · exact absurd heq.symm hne
      · exact hpath.trans_left hmutual.2
  · rintro ⟨node, hnode, hcycle⟩
    obtain ⟨next, hedge, hback⟩ := TransGen.head'_iff.mp hcycle
    have hnext : next ∈ component := (h.members component hcomponent node hnode next).mpr
      ⟨hedge.isNode_target, .single hedge, hback⟩
    exact isCyclic_of_edge hnode hnext hedge

/-- **Some component is cyclic** iff some node lies on a cycle. -/
theorem any_isCyclic_iff :
    (dependencyFirstSccs graph).any (isCyclic graph) = true ↔
      ∃ node, TransGen graph.Edge node node := by
  rw [any_eq_true]
  constructor
  · rintro ⟨component, hcomponent, hcyclic⟩
    obtain ⟨node, _, hcycle⟩ := (isCyclic_iff hcomponent).mp hcyclic
    exact ⟨node, hcycle⟩
  · rintro ⟨node, hcycle⟩
    obtain ⟨next, hedge, _⟩ := TransGen.head'_iff.mp hcycle
    obtain ⟨component, hcomponent, hnode⟩ :=
      (dependencyFirstSccs_canonical graph).exists_component hedge.isNode_source
    exact ⟨component, hcomponent, (isCyclic_iff hcomponent).mpr ⟨node, hnode, hcycle⟩⟩

end Cycles

/-! ## §2 Edges of both kinds -/

section Recovery

variable {Ticket : Type} {drafts : ClassDrafts Ticket} {classes : List ClassId}

/-- A class of the list extends another one. -/
def HardEdge (drafts : ClassDrafts Ticket) (classes : List ClassId) (classId target : ClassId) :
    Prop :=
  classId ∈ classes ∧ target ∈ classes ∧
    ∃ draft ∈ drafts[classId]?, ∃ clause ∈ draft.heritage.toList, clause.target = target

/-- A class of the list has instance heritage for another one. -/
def SoftEdge (drafts : ClassDrafts Ticket) (classes : List ClassId) (classId target : ClassId) :
    Prop :=
  classId ∈ classes ∧ target ∈ classes ∧
    ∃ draft ∈ drafts[classId]?, ∃ clause ∈ draft.instanceHeritage, clause.target = target

theorem HardEdge.heritageEdge {classId target : ClassId} (h : HardEdge drafts classes classId target) :
    HeritageEdge drafts classes classId target := by
  obtain ⟨hclass, htarget, draft, hdraft, clause, hclause, heq⟩ := h
  exact ⟨hclass, htarget, draft, hdraft, clause, mem_append_left _ hclause, heq⟩

/-- The classes on heritage cycles with a class have edges of both kinds, and their extends
    edges close no cycle. -/
structure MixedCycle (drafts : ClassDrafts Ticket) (component : List ClassId) : Prop where
  hard : ∃ classId target, HardEdge drafts component classId target
  soft : ∃ classId target, SoftEdge drafts component classId target
  acyclic : ∀ classId, ¬ Relation.TransGen (HardEdge drafts component) classId classId

/-- The answer of `has_recoverable_mixed_heritage_cycle`. -/
structure RecoverableCycle (drafts : ClassDrafts Ticket) (classes : List ClassId) : Prop where
  hard : ∃ classId target, HardEdge drafts classes classId target
  mixed : ∀ classId target, HardEdge drafts classes classId target →
    Mutual (HeritageEdge drafts classes) classId target ∧
    ∀ component, (∀ other, other ∈ component ↔
      other ∈ classes ∧ Mutual (HeritageEdge drafts classes) classId other) →
      MixedCycle drafts component

theorem hasSoft_spec (hdrafts : ∀ classId ∈ classes, classId ∈ drafts) :
    ∃ flag, hasSoft classes drafts = pure flag ∧
      (flag = true ↔ ∃ classId target, SoftEdge drafts classes classId target) := by
  let flagOf (classId : ClassId) : Bool := drafts[classId]?.any (fun draft =>
    draft.instanceHeritage.any (fun clause =>
      (ofList classes).contains clause.target))
  have hflag : ∀ classId ∈ classes, (do
      let draft ← draftOf drafts classId
      return draft.instanceHeritage.any (fun clause =>
        (ofList classes).contains clause.target)) =
      (pure (flagOf classId) : Fallible Bool) := by
    intro classId hclass
    obtain ⟨draft, hdraft⟩ := exists_draft hdrafts hclass
    rw [draftOf_eq_pure hdraft, pure_bind]
    simp only [flagOf, hdraft, Option.any_some]
  refine ⟨(classes.map flagOf).any id, ?_, ?_⟩
  · simp only [hasSoft]
    rw [mapM_eq_pure hflag, pure_bind]
  · simp only [any_map, any_eq_true, Function.comp_apply, id_eq, flagOf,
      Option.any_eq_true, contains_iff_mem, mem_ofList_iff]
    constructor
    · rintro ⟨classId, hclass, draft, hdraft, clause, hclause, htarget⟩
      exact ⟨classId, clause.target, hclass, htarget, draft, hdraft, clause, hclause, rfl⟩
    · rintro ⟨classId, target, hclass, htarget, draft, hdraft, clause, hclause, rfl⟩
      exact ⟨classId, hclass, draft, hdraft, clause, hclause, htarget⟩

theorem hardGraph_spec (hnodup : classes.Nodup) (hdrafts : ∀ classId ∈ classes, classId ∈ drafts) :
    ∃ graph, hardGraph classes drafts = pure graph ∧
      (∀ classId, classId ∈ graph ↔ classId ∈ classes) ∧
      ∀ classId target, graph.Edge classId target ↔ HardEdge drafts classes classId target :=
  clauseGraph_spec hnodup hdrafts (fun draft => draft.heritage.toList)

theorem any_values_iff (graph : DependencyGraph ClassId) :
    graph.values.any (fun targets => !targets.isEmpty) = true ↔
      ∃ classId target, graph.Edge classId target := by
  rw [any_eq_true]
  constructor
  · rintro ⟨targets, hvalue, hsome⟩
    rw [values_eq_map, mem_map] at hvalue
    obtain ⟨⟨classId, _⟩, hrow, rfl⟩ := hvalue
    rw [Bool.not_eq_true', ← Bool.not_eq_true, isEmpty_iff_forall_not_mem] at hsome
    simp only [not_forall, not_not] at hsome
    obtain ⟨target, htarget⟩ := hsome
    exact ⟨classId, target, DependencyGraph.mem_targets.mpr
      ⟨_, TreeMap.mem_toList_iff_getElem?_eq_some.mp hrow, htarget⟩⟩
  · rintro ⟨classId, target, hedge⟩
    obtain ⟨targets, hget, htarget⟩ := DependencyGraph.mem_targets.mp hedge
    refine ⟨targets, ?_, ?_⟩
    · rw [values_eq_map, mem_map]
      exact ⟨(classId, targets), TreeMap.mem_toList_iff_getElem?_eq_some.mpr hget, rfl⟩
    · rw [Bool.not_eq_true', ← Bool.not_eq_true, isEmpty_iff_forall_not_mem]
      exact fun hnone => hnone target htarget

/-- One heritage component is recoverable iff it is a mixed cycle. -/
theorem isRecoverable_spec (graph : DependencyGraph ClassId) {component : List ClassId}
    (hnodup : component.Nodup) (hdrafts : ∀ classId ∈ component, classId ∈ drafts) :
    ∃ flag, isRecoverable graph component drafts = pure flag ∧
      (flag = true ↔ isCyclic graph component = true ∧ MixedCycle drafts component) := by
  obtain ⟨hard, hhard, _, hedges⟩ := hardGraph_spec hnodup hdrafts
  obtain ⟨soft, hsoft, hsoftIff⟩ := hasSoft_spec hdrafts
  have hrelation : hard.Edge = HardEdge drafts component := by
    funext classId target
    exact propext (hedges classId target)
  unfold isRecoverable
  by_cases hcyclic : isCyclic graph component = true
  · refine ⟨hard.values.any (fun targets => !targets.isEmpty) && soft &&
      !(dependencyFirstSccs hard).any (isCyclic hard), ?_, ?_⟩
    · simp only [hcyclic, Bool.not_true, Bool.false_eq_true, if_false]
      rw [hhard, pure_bind, hsoft, pure_bind]
    · rw [Bool.and_eq_true, Bool.and_eq_true, any_values_iff, hsoftIff, Bool.not_eq_true',
        ← Bool.not_eq_true, any_isCyclic_iff, hrelation, not_exists]
      exact ⟨fun h => ⟨hcyclic, h.1.1, h.1.2, h.2⟩, fun h => ⟨⟨h.2.hard, h.2.soft⟩, h.2.acyclic⟩⟩
  · refine ⟨false, ?_, ?_⟩
    · simp [hcyclic]
    · simp [hcyclic]

/-! ## §3 The check -/

/-- Whether the extends edge lies in a recoverable heritage component. -/
def RecoverableEdge (positions : Std.TreeMap ClassId Nat) (recoverable : Std.TreeSet Nat)
    (classId target : ClassId) : Prop :=
  positions[classId]? = positions[target]? ∧ positions[classId]?.any recoverable.contains = true

/-- The loop over the extends edges. -/
theorem checkHardEdges_spec (hdrafts : ∀ classId ∈ classes, classId ∈ drafts)
    (positions : TreeMap ClassId Nat) (recoverable : TreeSet Nat) (rest : List ClassId)
    (hrest : ∀ classId ∈ rest, classId ∈ classes) (internalHardEdges : Nat) :
    ∃ flag, checkHardEdges (ofList classes) positions recoverable drafts rest
        internalHardEdges = pure flag ∧
      (flag = true ↔
        (internalHardEdges > 0 ∨ ∃ classId ∈ rest, ∃ target, HardEdge drafts classes classId target)
        ∧ ∀ classId ∈ rest, ∀ target, HardEdge drafts classes classId target →
          RecoverableEdge positions recoverable classId target) := by
  induction rest generalizing internalHardEdges with
  | nil => exact ⟨decide (internalHardEdges > 0), rfl, by simp⟩
  | cons classId rest ih =>
    obtain ⟨hclass, hrest⟩ := forall_mem_cons.mp hrest
    obtain ⟨draft, hdraft⟩ := exists_draft hdrafts hclass
    have hhard : ∀ target, HardEdge drafts classes classId target ↔
        ∃ clause, draft.heritage = some clause ∧ clause.target ∈ classes ∧
          clause.target = target := by
      intro target
      constructor
      · rintro ⟨_, htarget, other, hother, clause, hclause, rfl⟩
        cases hdraft.symm.trans hother
        exact ⟨clause, Option.mem_toList.mp hclause, htarget, rfl⟩
      · rintro ⟨clause, hclause, htarget, rfl⟩
        exact ⟨hclass, htarget, draft, hdraft, clause, Option.mem_toList.mpr hclause, rfl⟩
    -- without an extends edge of its own, the class changes nothing
    have hskip : (∀ target, ¬ HardEdge drafts classes classId target) →
        ∀ flag, (flag = true ↔ (internalHardEdges > 0 ∨
            ∃ classId ∈ rest, ∃ target, HardEdge drafts classes classId target) ∧
          ∀ classId ∈ rest, ∀ target, HardEdge drafts classes classId target →
            RecoverableEdge positions recoverable classId target) →
        (flag = true ↔ (internalHardEdges > 0 ∨
            ∃ other ∈ classId :: rest, ∃ target, HardEdge drafts classes other target) ∧
          ∀ other ∈ classId :: rest, ∀ target, HardEdge drafts classes other target →
            RecoverableEdge positions recoverable other target) := by
      intro hnone flag hflag
      simp only [exists_mem_cons_iff, forall_mem_cons, hnone, exists_const, false_or,
        false_imp_iff, implies_true, true_and]
      exact hflag
    simp only [checkHardEdges]
    rw [draftOf_eq_pure hdraft, pure_bind]
    cases hheritage : draft.heritage with
    | none =>
      obtain ⟨flag, hpure, hflag⟩ := ih hrest internalHardEdges
      refine ⟨flag, hpure, hskip (fun target => ?_) flag hflag⟩
      rw [hhard, hheritage]
      simp
    | some clause =>
      simp only [Bool.not_eq_true', ← Bool.not_eq_true, contains_iff_mem, mem_ofList_iff]
      split
      · rename_i hout
        obtain ⟨flag, hpure, hflag⟩ := ih hrest internalHardEdges
        refine ⟨flag, hpure, hskip (fun target => ?_) flag hflag⟩
        rw [hhard, hheritage]
        rintro ⟨other, heq, hin, _⟩
        cases heq
        exact hout hin
      · rename_i hin
        have hin : clause.target ∈ classes := not_not.mp hin
        have hedge : HardEdge drafts classes classId clause.target :=
          (hhard _).mpr ⟨clause, hheritage, hin, rfl⟩
        split
        · rename_i hbad
          refine ⟨false, rfl, ?_⟩
          simp only [Bool.false_eq_true, false_iff, not_and]
          intro _ hall
          obtain ⟨hsame, hmem⟩ := hall classId mem_cons_self clause.target hedge
          rw [hsame] at hmem
          simp [hsame, hmem] at hbad
        · rename_i hgood
          have hrecoverable : RecoverableEdge positions recoverable classId clause.target := by
            simpa [RecoverableEdge] using hgood
          obtain ⟨flag, hpure, hflag⟩ := ih hrest (internalHardEdges + 1)
          refine ⟨flag, hpure, hflag.trans ?_⟩
          simp only [forall_mem_cons]
          constructor
          · rintro ⟨_, hall⟩
            refine ⟨.inr ⟨classId, mem_cons_self, clause.target, hedge⟩, ?_, hall⟩
            intro target htarget
            obtain ⟨other, heq, _, rfl⟩ := (hhard target).mp htarget
            cases hheritage.symm.trans heq
            exact hrecoverable
          · rintro ⟨_, _, hall⟩
            exact ⟨.inl (Nat.succ_pos _), hall⟩

/-- The positions of the recoverable heritage components. -/
theorem recoverable_spec (drafts : ClassDrafts Ticket) {combined : DependencyGraph ClassId}
    (hdrafts : ∀ component ∈ dependencyFirstSccs combined, ∀ classId ∈ component,
      classId ∈ drafts) :
    ∃ recoverable, (dependencyFirstSccs combined).zipIdx.foldlM
        (fun (recoverable : TreeSet Nat) entry => do
          return if ← isRecoverable combined entry.1 drafts then recoverable.insert entry.2
            else recoverable) ∅ = (pure recoverable : Fallible (TreeSet Nat)) ∧
      ∀ position, position ∈ recoverable ↔
        ∃ component ∈ (dependencyFirstSccs combined)[position]?,
          isCyclic combined component = true ∧ MixedCycle drafts component := by
  classical
  let step (recoverable : TreeSet Nat) (entry : List ClassId × Nat) : TreeSet Nat :=
    if isCyclic combined entry.1 = true ∧ MixedCycle drafts entry.1 then
      recoverable.insert entry.2 else recoverable
  have h := dependencyFirstSccs_canonical combined
  refine ⟨(dependencyFirstSccs combined).zipIdx.foldl step ∅,
    foldlM_eq_pure (fun _ => True) _ trivial (fun entry hentry recoverable _ => ⟨?_, trivial⟩),
    fun position => ?_⟩
  · have hcomponent : entry.1 ∈ dependencyFirstSccs combined :=
      mem_of_getElem? (mem_zipIdx_iff_getElem?.mp hentry)
    obtain ⟨flag, hpure, hflag⟩ := isRecoverable_spec combined
      ((nodup_flatten.mp h.nodup).1 entry.1 hcomponent) (hdrafts entry.1 hcomponent)
    rw [hpure, pure_bind]
    simp only [step, ← hflag]
  · have hfold := (foldl_collects (f := step) (fun _ => True)
      (fun recoverable => position ∈ recoverable)
      (fun entry => (isCyclic combined entry.1 = true ∧ MixedCycle drafts entry.1) ∧
        position = entry.2) (dependencyFirstSccs combined).zipIdx ∅ trivial
      (fun entry _ recoverable _ => ⟨trivial, by
        simp only [step]
        split
        · rename_i hin
          rw [mem_insert_iff, or_comm]
          simp [hin]
        · rename_i hout
          simp [hout]⟩)).2
    rw [hfold]
    simp only [not_mem_emptyc, false_or, Prod.exists, mem_zipIdx_iff_getElem?]
    constructor
    · rintro ⟨component, index, hget, hmixed, rfl⟩
      exact ⟨component, hget, hmixed⟩
    · rintro ⟨component, hget, hmixed⟩
      exact ⟨component, position, hget, hmixed, rfl⟩

/-- **The recovery check** succeeds on registered classes and decides `RecoverableCycle`. -/
theorem hasRecoverableMixedHeritageCycle_spec (hnodup : classes.Nodup)
    (hdrafts : ∀ classId ∈ classes, classId ∈ drafts) :
    ∃ flag, hasRecoverableMixedHeritageCycle classes drafts = pure flag ∧
      (flag = true ↔ RecoverableCycle drafts classes) := by
  obtain ⟨combined, hcombined, hnodes, hedges⟩ := heritageGraph_spec hnodup hdrafts
  have h := dependencyFirstSccs_canonical combined
  have hrelation : combined.Edge = HeritageEdge drafts classes := by
    funext classId target
    exact propext (hedges classId target)
  have hisNode : ∀ classId, combined.IsNode classId ↔ classId ∈ classes := by
    intro classId
    rw [← hnodes]
    refine ⟨?_, .inl⟩
    rintro (hin | ⟨source, hedge⟩)
    · exact hin
    · exact (hnodes _).mpr ((hedges _ _).mp hedge).2.1
  have hmembers : ∀ component ∈ dependencyFirstSccs combined, ∀ classId ∈ component,
      classId ∈ classes := fun component hcomponent classId hclass =>
    (hisNode classId).mp ((h.mem_iff classId).mp (mem_flatten.mpr ⟨_, hcomponent, hclass⟩))
  obtain ⟨recoverable, hfold, hrecoverable⟩ := recoverable_spec drafts
    (fun component hcomponent classId hclass =>
      hdrafts classId (hmembers component hcomponent classId hclass))
  obtain ⟨flag, hpure, hflag⟩ := checkHardEdges_spec hdrafts
    (componentOf (dependencyFirstSccs combined)) recoverable classes (fun _ hclass => hclass) 0
  have hedge : ∀ classId target, HardEdge drafts classes classId target →
      (RecoverableEdge (componentOf (dependencyFirstSccs combined)) recoverable classId target ↔
        Mutual (HeritageEdge drafts classes) classId target ∧
        ∀ component, (∀ other, other ∈ component ↔
          other ∈ classes ∧ Mutual (HeritageEdge drafts classes) classId other) →
          MixedCycle drafts component) := by
    intro classId target hhard
    have hlink : combined.Edge classId target := (hedges _ _).mpr hhard.heritageEdge
    obtain ⟨position, own, hposition, hget, hin⟩ := exists_position hlink.isNode_source
    have hown := mem_of_getElem? hget
    have hmem : ∀ other, other ∈ own ↔
        other ∈ classes ∧ Mutual (HeritageEdge drafts classes) classId other := by
      intro other
      rw [h.members own hown classId hin other, hisNode, hrelation]
    have hcomponent : position ∈ recoverable ↔
        isCyclic combined own = true ∧ MixedCycle drafts own := by
      rw [hrecoverable, hget]
      simp
    unfold RecoverableEdge
    rw [position_eq_iff hlink.isNode_source hlink.isNode_target, hrelation, hposition,
      Option.any_some, contains_iff_mem, hcomponent]
    refine and_congr_right (fun hmutual => ?_)
    have htarget : target ∈ own := (hmem target).mpr ⟨hhard.2.1, hmutual⟩
    -- whether a cycle is mixed depends on the members alone
    have hsame : ∀ component : List ClassId, (∀ other, other ∈ component ↔ other ∈ own) →
        MixedCycle drafts own → MixedCycle drafts component := by
      rintro component hiff ⟨hhard, hsoft, hacyclic⟩
      have hhardIff : HardEdge drafts component = HardEdge drafts own := by
        funext first second
        simp only [HardEdge, hiff]
      have hsoftIff : SoftEdge drafts component = SoftEdge drafts own := by
        funext first second
        simp only [SoftEdge, hiff]
      exact ⟨hhardIff ▸ hhard, hsoftIff ▸ hsoft, hhardIff ▸ hacyclic⟩
    constructor
    · rintro ⟨_, hmixed⟩ component hiff
      exact hsame component (fun other => (hiff other).trans (hmem other).symm) hmixed
    · exact fun hall => ⟨isCyclic_of_edge hin htarget hlink, hall own hmem⟩
  refine ⟨flag, ?_, hflag.trans ⟨?_, ?_⟩⟩
  · simp only [hasRecoverableMixedHeritageCycle]
    rw [hcombined, pure_bind, hfold, pure_bind]
    exact hpure
  · rintro ⟨hsome, hall⟩
    obtain ⟨classId, _, target, hhard⟩ := hsome.resolve_left (by simp)
    exact ⟨⟨classId, target, hhard⟩, fun classId target hhard =>
      (hedge classId target hhard).mp (hall classId hhard.1 target hhard)⟩
  · rintro ⟨⟨classId, target, hhard⟩, hmixed⟩
    exact ⟨.inr ⟨classId, hhard.1, target, hhard⟩, fun classId _ target hhard =>
      (hedge classId target hhard).mpr (hmixed classId target hhard)⟩

end Recovery

end Typokat.Check
