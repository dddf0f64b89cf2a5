import Typokat.Check.ClassPublish
import Typokat.Check.ClassRecovery

/-!
# Poison along Heritage (`checker/classes/construction.rs`)

A class that is published should not rest on a poisoned base.  The loop over the components
asks for poisoned bases once per component, before the states of its own classes are known.
So poison passes from component to component, but not inside one.

## Main Results

- `publishComponent_ok` : what one successful turn of the loop does
- `finishWithInherited_poisoned_iff` : a registered class ends up poisoned iff it has an origin
  of its own or its component is tainted from outside
- `published_bases_iff` : when every published class rests on published bases
-/

namespace Typokat.Check

open Types Lib Publishing List

variable {Ticket : Type} {structuralHash : StructuralKey → Nat} {fuel : Nat}
  {inherited : PublishedClasses} {drafts : ClassDrafts Ticket}

/-! ## §1 What poisons a component -/

/-- An extends edge inside the component that no instance heritage recovers. -/
def CyclePoisoned (drafts : ClassDrafts Ticket) (classes : List ClassId) : Prop :=
  (∃ classId target, HardEdge drafts classes classId target) ∧ ¬ RecoverableCycle drafts classes

/-- A heritage clause of the component whose target is poisoned already. -/
def BasePoisoned (inherited : PublishedClasses) (drafts : ClassDrafts Ticket)
    (states : FxHashMap ClassId ClassConstructionState) (classes : List ClassId) : Prop :=
  ∃ classId ∈ classes, ∃ draft ∈ drafts[classId]?, ∃ clause ∈ draft.allHeritage,
    states.lookup clause.target = some .poisoned ∨ inherited.isPoisoned clause.target = true

theorem flatten_isEmpty_iff {A : Type} {rows : List (List A)} :
    rows.flatten.isEmpty = false ↔ ∃ row ∈ rows, ∃ entry, entry ∈ row := by
  rw [isEmpty_eq_false_iff_exists_mem]
  simp only [mem_flatten]
  constructor
  · rintro ⟨entry, row, hrow, hentry⟩
    exact ⟨row, hrow, entry, hentry⟩
  · rintro ⟨row, hrow, entry, hentry⟩
    exact ⟨entry, row, hrow, hentry⟩

/-- Collecting an obligation for each bad heritage clause of the classes. -/
theorem obligations_spec {classes : List ClassId} (hdrafts : ∀ classId ∈ classes, classId ∈ drafts)
    (clauses : ClassDraft Ticket → List (HeritageDependency Ticket))
    (bad : HeritageDependency Ticket → Prop) [DecidablePred bad]
    (made : ClassId → HeritageDependency Ticket → PendingSurfaceObligation Ticket) :
    ∃ found : List (List (PendingSurfaceObligation Ticket)),
      classes.mapM (fun classId => do
        let draft ← draftOf drafts classId
        return (clauses draft).filterMap (fun clause =>
          if bad clause then some (made classId clause) else none)) = pure found ∧
      (found.flatten.isEmpty = false ↔
        ∃ classId ∈ classes, ∃ draft ∈ drafts[classId]?, ∃ clause ∈ clauses draft, bad clause) := by
  let found (classId : ClassId) : List (PendingSurfaceObligation Ticket) :=
    (drafts[classId]?.map (fun draft => (clauses draft).filterMap (fun clause =>
      if bad clause then some (made classId clause) else none))).getD []
  refine ⟨classes.map found, ?_, ?_⟩
  · apply mapM_eq_pure
    intro classId hclass
    obtain ⟨draft, hdraft⟩ := exists_draft hdrafts hclass
    rw [draftOf_eq_pure hdraft, pure_bind]
    simp only [found, hdraft, Option.map_some, Option.getD_some]
  · rw [flatten_isEmpty_iff]
    constructor
    · rintro ⟨_, hrow, entry, hentry⟩
      obtain ⟨classId, hclass, rfl⟩ := mem_map.mp hrow
      obtain ⟨draft, hdraft⟩ := exists_draft hdrafts hclass
      simp only [found, hdraft, Option.map_some, Option.getD_some, mem_filterMap] at hentry
      obtain ⟨clause, hclause, heq⟩ := hentry
      split at heq
      · rename_i hbad
        exact ⟨classId, hclass, draft, hdraft, clause, hclause, hbad⟩
      · cases heq
    · rintro ⟨classId, hclass, draft, hdraft, clause, hclause, hbad⟩
      refine ⟨found classId, mem_map_of_mem hclass, made classId clause, ?_⟩
      simp only [found, Option.mem_def.mp hdraft, Option.map_some, Option.getD_some, mem_filterMap]
      exact ⟨clause, hclause, if_pos hbad⟩

theorem cycleObligations_spec {classes order : List ClassId} (recoverable : Bool)
    (horder : ∀ classId, classId ∈ order ↔ classId ∈ classes)
    (hdrafts : ∀ classId ∈ classes, classId ∈ drafts) :
    ∃ cycles, cycleObligations drafts classes recoverable order = pure cycles ∧
      (cycles.isEmpty = false ↔
        (∃ classId target, HardEdge drafts classes classId target) ∧ recoverable = false) := by
  obtain ⟨found, hfound, hiff⟩ := obligations_spec
    (fun classId hclass => hdrafts classId ((horder classId).mp hclass))
    (fun draft => draft.heritage.toList) (fun clause => clause.target ∈ classes ∧ recoverable = false)
    (fun classId clause => .heritageCycle classId clause.target clause.owner)
  refine ⟨found.flatten, by rw [cycleObligations, hfound, pure_bind], hiff.trans ?_⟩
  constructor
  · rintro ⟨classId, hclass, draft, hdraft, clause, hclause, htarget, hflag⟩
    exact ⟨⟨classId, clause.target, (horder classId).mp hclass, htarget, draft, hdraft, clause,
      hclause, rfl⟩, hflag⟩
  · rintro ⟨⟨classId, _, hclass, htarget, draft, hdraft, clause, hclause, rfl⟩, hflag⟩
    exact ⟨classId, (horder classId).mpr hclass, draft, hdraft, clause, hclause, htarget, hflag⟩

theorem poisonedBaseObligations_spec (inherited : PublishedClasses) {classes : List ClassId}
    (hdrafts : ∀ classId ∈ classes, classId ∈ drafts) (state : PublicationState Ticket) :
    ∃ bases, poisonedBaseObligations inherited drafts state classes = pure bases ∧
      (bases.isEmpty = false ↔ BasePoisoned inherited drafts state.states classes) := by
  obtain ⟨found, hfound, hiff⟩ := obligations_spec hdrafts (fun draft => draft.allHeritage)
    (fun clause => state.states.lookup clause.target = some .poisoned ∨
      inherited.isPoisoned clause.target = true)
    (fun classId clause => .poisonedBase classId clause.target clause.owner)
  exact ⟨found.flatten, by rw [poisonedBaseObligations, hfound, pure_bind], hiff⟩

/-! ## §2 One component -/

/-- **The head of a component's turn** never fails on registered classes: it finds the
construction order and whether the whole component is poisoned. -/
theorem publishComponent_eq (structuralHash : StructuralKey → Nat) (fuel : Nat)
    (inherited : PublishedClasses) {classes : List ClassId} (hnodup : classes.Nodup)
    (hdrafts : ∀ classId ∈ classes, classId ∈ drafts) (state : PublicationState Ticket) :
    ∃ order poisoned obligations,
      GreedyRest (· ∈ classes) (BuiltAfter drafts classes) (TakenBefore drafts) [] order ∧
      (poisoned = true ↔
        CyclePoisoned drafts classes ∨ BasePoisoned inherited drafts state.states classes) ∧
      publishComponent structuralHash fuel inherited drafts state classes =
        order.foldlM (publishClass structuralHash fuel inherited drafts classes poisoned)
          { state with obligations } := by
  obtain ⟨order, horder, hgreedy⟩ := heritageConstructionOrder_spec hnodup hdrafts
  obtain ⟨recoverable, hrecoverable, hflag⟩ :=
    hasRecoverableMixedHeritageCycle_spec hnodup hdrafts
  have hmem : ∀ classId, classId ∈ order ↔ classId ∈ classes := hgreedy.complete
  obtain ⟨cycles, hcycles, hcycleIff⟩ := cycleObligations_spec recoverable hmem hdrafts
  obtain ⟨bases, hbases, hbaseIff⟩ :=
    poisonedBaseObligations_spec inherited hdrafts state
  have hcycle : cycles.isEmpty = false ↔ CyclePoisoned drafts classes := by
    rw [hcycleIff, CyclePoisoned, ← hflag, Bool.not_eq_true]
  unfold publishComponent
  rw [horder, hrecoverable]
  simp only [lift_pure, pure_bind]
  rw [hcycles]
  simp only [lift_pure, pure_bind]
  cases hempty : cycles.isEmpty with
  | true =>
    refine ⟨order, !bases.isEmpty, state.obligations ++ cycles ++ bases, hgreedy, ?_, ?_⟩
    · have hnone : ¬ CyclePoisoned drafts classes := by
        rw [← hcycle, hempty]
        simp
      rw [Bool.not_eq_true', hbaseIff]
      simp only [hnone, false_or]
    · rw [hbases]
      simp
  | false =>
    refine ⟨order, true, state.obligations ++ cycles, hgreedy, ?_, ?_⟩
    · simp only [true_iff]
      exact .inl (hcycle.mp hempty)
    · simp


/-- A class is poisoned by its component or by an origin of its own. -/
theorem poisonCause_isSome {poisoned : Bool} {draft : ClassDraft Ticket} :
    (poisonCause poisoned draft).isSome = true ↔ poisoned = true ∨ draft.hasOrigin = true := by
  unfold poisonCause ClassDraft.hasOrigin
  cases poisoned <;> cases draft.initializerOrigins <;> cases draft.heritageSurfaceOrigins <;>
    cases draft.surfaceOrigins <;> simp

section Publishing

variable {classes : List ClassId} {state next : PublicationState Ticket}
  {interner interner' : Interner}

/-- What one class of the construction order does when it succeeds. -/
theorem publishClass_ok {poisoned : Bool} {classId : ClassId}
    (h : (publishClass structuralHash fuel inherited drafts classes poisoned state classId).outcome
      interner = some (.ok next, interner')) :
    ∃ draft, drafts[classId]? = some draft ∧
      ((∃ cause, poisonCause poisoned draft = some cause ∧ interner' = interner ∧
        next = { state with
          states := state.states.insert classId .poisoned
          poison := state.poison.insert classId cause
          obligations := state.obligations ++ originObligations classId draft }) ∨
      (poisonCause poisoned draft = none ∧ ∃ surface inheritedConstructor,
        (composeSurface structuralHash fuel inherited classes state classId draft).outcome
          interner = some (.ok (surface, inheritedConstructor), interner') ∧
        next = { state with
          states := state.states.insert classId .published
          surfaces := state.surfaces.insert classId surface
          heritageConstructors := inheritedConstructor.elim state.heritageConstructors
            (state.heritageConstructors.insert classId)
          obligations := state.obligations ++ originObligations classId draft })) := by
  cases hdraft : drafts[classId]? with
  | none =>
    simp only [publishClass, draftOf, hdraft] at h
    cases h
  | some draft =>
    refine ⟨draft, rfl, ?_⟩
    simp only [publishClass, draftOf_eq_pure hdraft, lift_pure, pure_bind] at h
    cases hcause : poisonCause poisoned draft with
    | some cause =>
      rw [hcause] at h
      cases h
      exact .inl ⟨cause, rfl, rfl, rfl⟩
    | none =>
      rw [hcause] at h
      obtain ⟨⟨surface, inheritedConstructor⟩, middle, hcompose, hrest⟩ :=
        outcome_bind_ok.mp h
      cases hrest
      exact .inr ⟨rfl, surface, inheritedConstructor, hcompose, rfl⟩

/-- **One turn of the loop** settles the classes of the component: poisoned are those with an
origin, or all of them; the states of the other classes stay. -/
theorem publishComponent_ok (hnodup : classes.Nodup)
    (hdrafts : ∀ classId ∈ classes, classId ∈ drafts)
    (h : (publishComponent structuralHash fuel inherited drafts state classes).outcome interner =
      some (.ok next, interner')) :
    (∀ classId draft, classId ∈ classes → drafts[classId]? = some draft →
      (next.states.lookup classId = some .poisoned ∨
        next.states.lookup classId = some .published) ∧
      (next.states.lookup classId = some .poisoned ↔ CyclePoisoned drafts classes ∨
        BasePoisoned inherited drafts state.states classes ∨ draft.hasOrigin = true)) ∧
    ∀ classId, classId ∉ classes → next.states.lookup classId = state.states.lookup classId := by
  obtain ⟨order, poisoned, obligations, hgreedy, hpoisoned, heq⟩ := publishComponent_eq
    structuralHash fuel inherited hnodup hdrafts state
  rw [heq] at h
  -- after the classes of `done`, these are settled and the others are as before
  let inv (done : List ClassId) (current : PublicationState Ticket) : Prop :=
    (∀ classId draft, classId ∈ done → drafts[classId]? = some draft →
      (current.states.lookup classId = some .poisoned ∨
        current.states.lookup classId = some .published) ∧
      (current.states.lookup classId = some .poisoned ↔
        poisoned = true ∨ draft.hasOrigin = true)) ∧
    ∀ classId, classId ∉ done → current.states.lookup classId = state.states.lookup classId
  have hfinal : inv ([] ++ order) next := by
    refine foldlM_ok inv h [] ⟨by simp, fun _ _ => rfl⟩ ?_
    rintro front classId back current after first second hsplit ⟨hsettled, hsame⟩ hclass
    obtain ⟨draft, hdraft, hcases⟩ := publishClass_ok hclass
    have hstates : (after.states = current.states.insert classId .poisoned ∧
          (poisoned = true ∨ draft.hasOrigin = true)) ∨
        (after.states = current.states.insert classId .published ∧
          ¬ (poisoned = true ∨ draft.hasOrigin = true)) := by
      rcases hcases with ⟨cause, hcause, _, rfl⟩ | ⟨hcause, surface, inheritedConstructor, _, rfl⟩
      · exact .inl ⟨rfl, poisonCause_isSome.mp (by rw [hcause]; rfl)⟩
      · refine .inr ⟨rfl, ?_⟩
        rw [← poisonCause_isSome, hcause]
        simp
    have hother : ∀ other, other ≠ classId →
        after.states.lookup other = current.states.lookup other := by
      intro other hne
      rcases hstates with ⟨hstates, _⟩ | ⟨hstates, _⟩ <;>
        rw [hstates, Finmap.lookup_insert_of_ne _ hne]
    constructor
    · intro other otherDraft hin hother'
      by_cases hsame : other = classId
      · subst hsame
        cases hdraft.symm.trans hother'
        rcases hstates with ⟨hstates, hbad⟩ | ⟨hstates, hgood⟩
        · rw [hstates, Finmap.lookup_insert]
          exact ⟨.inl rfl, iff_of_true rfl hbad⟩
        · rw [hstates, Finmap.lookup_insert]
          exact ⟨.inr rfl, iff_of_false (by simp) hgood⟩
      · rw [hother other hsame]
        refine hsettled other otherDraft ?_ hother'
        rcases mem_append.mp hin with hin | hin
        · exact hin
        · exact absurd (mem_singleton.mp hin) hsame
    · intro other hout
      rw [mem_append, mem_singleton, not_or] at hout
      rw [hother other hout.2, hsame other hout.1]
  rw [nil_append] at hfinal
  have hmem : ∀ classId, classId ∈ order ↔ classId ∈ classes := hgreedy.complete
  constructor
  · intro classId draft hclass hdraft
    obtain ⟨hfinalState, hiff⟩ := hfinal.1 classId draft ((hmem classId).mpr hclass) hdraft
    exact ⟨hfinalState, by rw [hiff, hpoisoned, or_assoc]⟩
  · exact fun classId hout => hfinal.2 classId (fun hin => hout ((hmem classId).mp hin))

end Publishing

/-! ## §3 The whole run -/

/-- The dependency components of the drafts, in the order in which they are published. -/
def dependencyComponents (store : Store) (roots : ReservedSurfaceRoots)
    (drafts : ClassDrafts Ticket) (inherited : PublishedClasses) : List (List ClassId) :=
  match ClassGraph.build store roots drafts inherited with
  | some (.ok graph) => dependencyFirstSccs graph.dependencyMap
  | _ => []

/-- A component is tainted by an extends cycle of its own, or by a base outside of it that is
    poisoned: an inherited one, one with an origin, or one of a tainted component. -/
inductive Tainted (inherited : PublishedClasses) (drafts : ClassDrafts Ticket)
    (components : List (List ClassId)) : List ClassId → Prop
  | cycle {component : List ClassId} (hcycle : CyclePoisoned drafts component) :
    Tainted inherited drafts components component
  | inherited {component : List ClassId} {classId : ClassId} {draft : ClassDraft Ticket}
    {clause : HeritageDependency Ticket} (hclass : classId ∈ component)
    (hdraft : drafts[classId]? = some draft) (hclause : clause ∈ draft.allHeritage)
    (hpoisoned : inherited.isPoisoned clause.target = true) :
    Tainted inherited drafts components component
  | origin {component base : List ClassId} {classId : ClassId} {draft baseDraft : ClassDraft Ticket}
    {clause : HeritageDependency Ticket} (hclass : classId ∈ component)
    (hdraft : drafts[classId]? = some draft) (hclause : clause ∈ draft.allHeritage)
    (hbase : base ∈ components) (hne : base ≠ component) (htarget : clause.target ∈ base)
    (hbaseDraft : drafts[clause.target]? = some baseDraft) (horigin : baseDraft.hasOrigin = true) :
    Tainted inherited drafts components component
  | base {component base : List ClassId} {classId : ClassId} {draft : ClassDraft Ticket}
    {clause : HeritageDependency Ticket} (hclass : classId ∈ component)
    (hdraft : drafts[classId]? = some draft) (hclause : clause ∈ draft.allHeritage)
    (hbase : base ∈ components) (hne : base ≠ component) (htarget : clause.target ∈ base)
    (htainted : Tainted inherited drafts components base) :
    Tainted inherited drafts components component

/-- A component that no heritage clause leaves or stays in is not tainted. -/
theorem Tainted.exists_clause {components : List (List ClassId)} {component : List ClassId}
    (h : Tainted inherited drafts components component) :
    ∃ classId ∈ component, ∃ draft, drafts[classId]? = some draft ∧
      ∃ clause, clause ∈ draft.allHeritage := by
  cases h with
  | cycle hcycle =>
    obtain ⟨⟨classId, _, hclass, _, draft, hdraft, clause, hclause, _⟩, _⟩ := hcycle
    exact ⟨classId, hclass, draft, hdraft, clause, mem_append_left _ hclause⟩
  | inherited hclass hdraft hclause _ | origin hclass hdraft hclause _ _ _ _ _
  | base hclass hdraft hclause _ _ _ _ => exact ⟨_, hclass, _, hdraft, _, hclause⟩

/-- The states after the components of `done`. -/
structure Settled (inherited : PublishedClasses) (drafts : ClassDrafts Ticket)
    (components done : List (List ClassId)) (states : FxHashMap ClassId ClassConstructionState) :
    Prop where
  settled : ∀ component ∈ done, ∀ classId ∈ component, ∀ draft, drafts[classId]? = some draft →
    (states.lookup classId = some .poisoned ∨ states.lookup classId = some .published) ∧
    (states.lookup classId = some .poisoned ↔
      draft.hasOrigin = true ∨ Tainted inherited drafts components component)
  others : ∀ classId, classId ∉ done.flatten → states.lookup classId = none

section Run

variable {store : Store} {roots : ReservedSurfaceRoots} {graph : ClassGraph}

/-- What the components of a graph that was built have to do with the drafts. -/
theorem components_spec (hbuild : ClassGraph.build store roots drafts inherited = some (.ok graph)) :
    DependencyFirst graph.dependencyMap.Edge (· ∈ drafts) (dependencyFirstSccs graph.dependencyMap) ∧
    ∀ classId draft, drafts[classId]? = some draft → ∀ clause ∈ draft.allHeritage,
      (clause.target ∈ drafts → graph.dependencyMap.Edge classId clause.target) ∧
      (clause.target ∉ drafts → inherited.isUnknown clause.target = false) := by
  have hnodes : graph.dependencyMap.IsNode = (· ∈ drafts) := by
    funext classId
    exact propext (ClassGraph.isNode_dependencyMap hbuild classId)
  refine ⟨hnodes ▸ dependencyFirstSccs_canonical graph.dependencyMap, ?_⟩
  intro classId draft hdraft clause hclause
  obtain ⟨edges, hget, hedges⟩ := (ClassGraph.build_ok hbuild).2 classId draft hdraft
  constructor
  · intro htarget
    exact ClassGraph.edge_dependencyMap.mpr ⟨edges, hget,
      .inr ((hedges.heritage _).mpr ⟨⟨clause, hclause, rfl⟩, htarget⟩)⟩
  · exact fun hout => (hedges.known clause hclause).resolve_left hout

/-- The bases that poison the next component are those that taint it. -/
theorem Settled.basePoisoned_iff
    (hbuild : ClassGraph.build store roots drafts inherited = some (.ok graph))
    {done back : List (List ClassId)} {component : List ClassId}
    (hsplit : dependencyFirstSccs graph.dependencyMap = done ++ component :: back)
    {states : FxHashMap ClassId ClassConstructionState}
    (h : Settled inherited drafts (dependencyFirstSccs graph.dependencyMap) done states) :
    (CyclePoisoned drafts component ∨ BasePoisoned inherited drafts states component) ↔
      Tainted inherited drafts (dependencyFirstSccs graph.dependencyMap) component := by
  obtain ⟨hcanonical, hclauses⟩ := components_spec hbuild
  have hmem : ∀ other, other ∈ done → other ∈ dependencyFirstSccs graph.dependencyMap := by
    intro other hother
    rw [hsplit]
    exact mem_append_left _ hother
  have hown : component ∈ dependencyFirstSccs graph.dependencyMap := by
    rw [hsplit]
    exact mem_append_right _ mem_cons_self
  have hfresh : ∀ other ∈ done, other ≠ component := by
    rintro other hother rfl
    have hnodup := hcanonical.nodup
    rw [hsplit, flatten_append, flatten_cons] at hnodup
    obtain ⟨node, hnode⟩ := exists_mem_of_ne_nil other (hcanonical.nonempty other hown)
    exact disjoint_of_nodup_append hnodup (mem_flatten.mpr ⟨other, hother, hnode⟩)
      (mem_append_left _ hnode)
  -- the component of a heritage target outside is out already
  have hearlier : ∀ {classId draft clause base}, classId ∈ component →
      drafts[classId]? = some draft → clause ∈ draft.allHeritage →
      base ∈ dependencyFirstSccs graph.dependencyMap → base ≠ component →
      clause.target ∈ base → base ∈ done := by
    intro classId draft clause base hclass hdraft hclause hbase hne htarget
    have hregistered : clause.target ∈ drafts :=
      (hcanonical.mem_iff _).mp (mem_flatten.mpr ⟨base, hbase, htarget⟩)
    have hedge := (hclauses classId draft hdraft clause hclause).1 hregistered
    rcases hcanonical.ready done component back hsplit classId hclass clause.target hedge with
      hin | hin
    · exact absurd (hcanonical.eq_of_mem hbase hown htarget hin) hne
    · obtain ⟨other, hother, hin⟩ := mem_flatten.mp hin
      rwa [hcanonical.eq_of_mem hbase (hmem other hother) htarget hin]
  constructor
  · rintro (hcycle | ⟨classId, hclass, draft, hdraft, clause, hclause, hpoisoned | hpoisoned⟩)
    · exact .cycle hcycle
    · have htarget : clause.target ∈ done.flatten := by
        by_contra hout
        rw [h.others _ hout] at hpoisoned
        cases hpoisoned
      obtain ⟨base, hbase, htarget⟩ := mem_flatten.mp htarget
      have hregistered : clause.target ∈ drafts :=
        (hcanonical.mem_iff _).mp (mem_flatten.mpr ⟨base, hmem base hbase, htarget⟩)
      rw [Std.TreeMap.mem_iff_isSome_getElem?, Option.isSome_iff_exists] at hregistered
      obtain ⟨baseDraft, hbaseDraft⟩ := hregistered
      rcases (h.settled base hbase _ htarget baseDraft hbaseDraft).2.mp hpoisoned with
        horigin | htainted
      · exact .origin hclass hdraft hclause (hmem base hbase) (hfresh base hbase) htarget
          hbaseDraft horigin
      · exact .base hclass hdraft hclause (hmem base hbase) (hfresh base hbase) htarget htainted
    · exact .inherited hclass hdraft hclause hpoisoned
  · intro htainted
    cases htainted with
    | cycle hcycle => exact .inl hcycle
    | inherited hclass hdraft hclause hpoisoned =>
      exact .inr ⟨_, hclass, _, hdraft, _, hclause, .inr hpoisoned⟩
    | origin hclass hdraft hclause hbase hne htarget hbaseDraft horigin =>
      have hdone := hearlier hclass hdraft hclause hbase hne htarget
      exact .inr ⟨_, hclass, _, hdraft, _, hclause,
        .inl ((h.settled _ hdone _ htarget _ hbaseDraft).2.mpr (.inl horigin))⟩
    | base hclass hdraft hclause hbase hne htarget htainted =>
      have hdone := hearlier hclass hdraft hclause hbase hne htarget
      have hregistered := (hcanonical.mem_iff _).mp (mem_flatten.mpr ⟨_, hbase, htarget⟩)
      rw [Std.TreeMap.mem_iff_isSome_getElem?, Option.isSome_iff_exists] at hregistered
      obtain ⟨baseDraft, hbaseDraft⟩ := hregistered
      exact .inr ⟨_, hclass, _, hdraft, _, hclause,
        .inl ((h.settled _ hdone _ htarget _ hbaseDraft).2.mpr (.inr htainted))⟩

/-- **The loop over the components** settles every registered class. -/
theorem publishComponents_ok {state : PublicationState Ticket} {interner interner' : Interner}
    (h : (publishComponents structuralHash fuel inherited roots drafts).outcome interner =
      some (.ok state, interner')) :
    ∃ graph, ClassGraph.build interner.store roots drafts inherited = some (.ok graph) ∧
      Settled inherited drafts (dependencyFirstSccs graph.dependencyMap)
        (dependencyFirstSccs graph.dependencyMap) state.states := by
  unfold publishComponents at h
  obtain ⟨current, first, hget, h⟩ := outcome_bind_ok.mp h
  rw [outcome_get] at hget
  cases hget
  obtain ⟨graph, second, hlift, h⟩ := outcome_bind_ok.mp h
  rw [outcome_lift] at hlift
  obtain ⟨result, hbuild, heq⟩ := Option.map_eq_some_iff.mp hlift
  cases heq
  refine ⟨graph, hbuild, ?_⟩
  obtain ⟨hcanonical, _⟩ := components_spec hbuild
  refine Publishing.foldlM_ok (fun done state => Settled inherited drafts
    (dependencyFirstSccs graph.dependencyMap) done state.states) h [] ⟨by simp, fun _ _ => rfl⟩ ?_
  intro front component back before after first second hsplit hinv hstep
  rw [nil_append] at hinv ⊢
  have hcomponent : component ∈ dependencyFirstSccs graph.dependencyMap := by
    rw [hsplit]
    exact mem_append_right _ mem_cons_self
  obtain ⟨hclasses, hothers⟩ := publishComponent_ok
    ((nodup_flatten.mp hcanonical.nodup).1 component hcomponent)
    (fun classId hclass => (hcanonical.mem_iff classId).mp
      (mem_flatten.mpr ⟨component, hcomponent, hclass⟩)) hstep
  have htainted := hinv.basePoisoned_iff hbuild hsplit
  have hnodup := hcanonical.nodup
  rw [hsplit, flatten_append, flatten_cons] at hnodup
  refine ⟨forall_mem_append.mpr ⟨?_, ?_⟩, ?_⟩
  · intro other hother classId hclass draft hdraft
    rw [hothers classId (fun hin => disjoint_of_nodup_append hnodup
      (mem_flatten.mpr ⟨other, hother, hclass⟩) (mem_append_left _ hin))]
    exact hinv.settled other hother classId hclass draft hdraft
  · intro other hother classId hclass draft hdraft
    rw [mem_singleton] at hother
    subst hother
    obtain ⟨hfinal, hiff⟩ := hclasses classId draft hclass hdraft
    refine ⟨hfinal, ?_⟩
    rw [hiff, ← or_assoc, htainted]
    exact or_comm
  · intro classId hout
    rw [flatten_append, mem_append, not_or, flatten_singleton] at hout
    rw [hothers classId hout.2, hinv.others classId hout.1]

section Finish

variable {publication : ClassPublication Ticket} {interner interner' : Interner}
  (h : (finishWithInherited structuralHash fuel inherited roots drafts).outcome interner =
    some (.ok publication, interner'))
include h

/-- A publication that succeeds hands out the registries of the loop. -/
theorem finishWithInherited_ok :
    ∃ state next, (publishComponents structuralHash fuel inherited roots drafts).outcome interner =
        some (.ok state, next) ∧
      publication.published = ⟨state.states, state.surfaces, state.poison⟩ := by
  unfold finishWithInherited at h
  split at h
  · cases h
  · obtain ⟨state, next, hcomponents, h⟩ := outcome_bind_ok.mp h
    obtain ⟨_, second, _, h⟩ := outcome_bind_ok.mp h
    refine ⟨state, next, hcomponents, ?_⟩
    split at h
    · cases h
    · rename_i published hpublished
      obtain ⟨_, third, _, h⟩ := outcome_bind_ok.mp h
      cases h
      simp only [PublishedClasses.fromPublication, Option.ite_none_right_eq_some] at hpublished
      exact (Option.some.inj hpublished.2).symm

/-- **Who is poisoned**: the registered classes with an origin of their own and those of a
tainted component; all others are published. -/
theorem finishWithInherited_poisoned_iff :
    ∃ graph, ClassGraph.build interner.store roots drafts inherited = some (.ok graph) ∧
      dependencyComponents interner.store roots drafts inherited =
        dependencyFirstSccs graph.dependencyMap ∧
      Settled inherited drafts (dependencyComponents interner.store roots drafts inherited)
        (dependencyComponents interner.store roots drafts inherited)
        publication.published.states := by
  obtain ⟨state, next, hcomponents, hpublished⟩ := finishWithInherited_ok h
  obtain ⟨graph, hbuild, hsettled⟩ := publishComponents_ok hcomponents
  have heq : dependencyComponents interner.store roots drafts inherited =
      dependencyFirstSccs graph.dependencyMap := by
    unfold dependencyComponents
    rw [hbuild]
  refine ⟨graph, hbuild, heq, ?_⟩
  rw [heq, hpublished]
  exact hsettled

end Finish

end Run

/-! ## §4 Published classes and their bases -/

/-- A class is published: a registered one by this publication, another one by the inherited
    registry. -/
def IsPublished (inherited : PublishedClasses) (drafts : ClassDrafts Ticket)
    (published : PublishedClasses) (classId : ClassId) : Prop :=
  (classId ∈ drafts → published.states.lookup classId = some .published) ∧
    (classId ∉ drafts → ∃ surface, inherited.surface classId = some surface)

/-- No published class rests on a poisoned base, and poison comes from origins and heritage
    only. -/
structure PoisonReachesHeirs (inherited : PublishedClasses) (drafts : ClassDrafts Ticket)
    (components : List (List ClassId)) (published : PublishedClasses) : Prop where
  bases : ∀ (classId : ClassId) (draft : ClassDraft Ticket), drafts[classId]? = some draft →
    published.states.lookup classId = some .published → ∀ clause ∈ draft.allHeritage,
      IsPublished inherited drafts published clause.target
  origins : ∀ component ∈ components,
    (∀ classId ∈ component, ∀ draft ∈ drafts[classId]?, draft.allHeritage = []) →
    ∀ classId ∈ component, ∀ draft ∈ drafts[classId]?, draft.hasOrigin = false →
      published.states.lookup classId ≠ some .poisoned

/-- In a component that nothing taints, no class without an origin inherits from a class of the
    component with one. -/
def OriginsStayOutside (inherited : PublishedClasses) (drafts : ClassDrafts Ticket)
    (components : List (List ClassId)) : Prop :=
  ∀ component ∈ components, ¬ Tainted inherited drafts components component →
    ∀ classId ∈ component, ∀ draft ∈ drafts[classId]?, draft.hasOrigin = false →
      ∀ clause ∈ draft.allHeritage, clause.target ∈ component →
        ∀ base ∈ drafts[clause.target]?, base.hasOrigin = false

/-- **Poison reaches the heirs** of a class exactly when no origin lies inside an untainted
component below a class without one. -/
theorem published_bases_iff {roots : ReservedSurfaceRoots} {publication : ClassPublication Ticket}
    {interner interner' : Interner}
    (h : (finishWithInherited structuralHash fuel inherited roots drafts).outcome interner =
      some (.ok publication, interner')) :
    PoisonReachesHeirs inherited drafts
        (dependencyComponents interner.store roots drafts inherited) publication.published ↔
      OriginsStayOutside inherited drafts
        (dependencyComponents interner.store roots drafts inherited) := by
  obtain ⟨graph, hbuild, hcomponents, hsettled⟩ := finishWithInherited_poisoned_iff h
  obtain ⟨hcanonical, hclauses⟩ := components_spec hbuild
  rw [← hcomponents] at hcanonical
  have hdraft : ∀ {classId}, classId ∈ drafts → ∃ draft, drafts[classId]? = some draft := by
    intro classId hclass
    rwa [Std.TreeMap.mem_iff_isSome_getElem?, Option.isSome_iff_exists] at hclass
  constructor
  · rintro ⟨hbases, _⟩ component hcomponent hclean classId hclass draft hdraft horigin clause
      hclause htarget base hbase
    obtain ⟨hfinal, hiff⟩ := hsettled.settled component hcomponent classId hclass draft hdraft
    have hpublished : publication.published.states.lookup classId = some .published := by
      refine hfinal.resolve_left (fun hpoisoned => ?_)
      rcases hiff.mp hpoisoned with hbad | hbad
      · rw [horigin] at hbad
        cases hbad
      · exact hclean hbad
    have hregistered : clause.target ∈ drafts :=
      (hcanonical.mem_iff _).mp (mem_flatten.mpr ⟨component, hcomponent, htarget⟩)
    have hbasePublished :=
      (hbases classId draft hdraft hpublished clause hclause).1 hregistered
    obtain ⟨_, hbaseIff⟩ := hsettled.settled component hcomponent _ htarget base hbase
    -- an origin would poison the base, which is published
    rw [← Bool.not_eq_true]
    intro hbad
    rw [hbaseIff.mpr (.inl hbad)] at hbasePublished
    cases hbasePublished
  · intro hcondition
    refine ⟨?_, ?_⟩
    · intro classId draft hget hpublished clause hclause
      have hregistered : classId ∈ drafts := by
        rw [Std.TreeMap.mem_iff_isSome_getElem?, hget]
        rfl
      obtain ⟨component, hcomponent, hclass⟩ := hcanonical.exists_component hregistered
      obtain ⟨_, hiff⟩ := hsettled.settled component hcomponent classId hclass draft hget
      obtain ⟨horigin, hclean⟩ := not_or.mp (fun hbad => by
        have hpoisoned := hiff.mpr hbad
        rw [hpublished] at hpoisoned
        cases hpoisoned)
      rw [Bool.not_eq_true] at horigin
      refine ⟨fun htarget => ?_, fun hout => ?_⟩
      · obtain ⟨base, hbase, hin⟩ := hcanonical.exists_component htarget
        obtain ⟨baseDraft, hbaseDraft⟩ := hdraft htarget
        obtain ⟨hfinal, hbaseIff⟩ := hsettled.settled base hbase _ hin baseDraft hbaseDraft
        refine hfinal.resolve_left (fun hpoisoned => ?_)
        by_cases hsame : base = component
        · -- inside the component only an origin of the base itself poisons it
          subst hsame
          rcases hbaseIff.mp hpoisoned with hbad | hbad
          · rw [hcondition base hbase hclean classId hclass draft hget horigin clause hclause hin
              baseDraft hbaseDraft] at hbad
            cases hbad
          · exact hclean hbad
        -- a poisoned base of another component reaches this one
        · rcases hbaseIff.mp hpoisoned with hbad | hbad
          · exact hclean (.origin hclass hget hclause hbase hsame hin hbaseDraft hbad)
          · exact hclean (.base hclass hget hclause hbase hsame hin hbad)
      · rcases inherited.isUnknown_or_isPoisoned_or_surface clause.target with
          hunknown | hpoisoned | hsurface
        · rw [(hclauses classId draft hget clause hclause).2 hout] at hunknown
          cases hunknown
        · exact absurd (.inherited hclass hget hclause hpoisoned) hclean
        · exact hsurface
    · intro component hcomponent hnone classId hclass draft hget horigin hpoisoned
      obtain ⟨_, hiff⟩ := hsettled.settled component hcomponent classId hclass draft hget
      rcases hiff.mp hpoisoned with hbad | hbad
      · rw [horigin] at hbad
        cases hbad
      · obtain ⟨other, hother, otherDraft, hotherDraft, clause, hclause⟩ := hbad.exists_clause
        rw [hnone other hother otherDraft hotherDraft] at hclause
        cases hclause

/-! ## §5 Origins inside a component -/

/-- An interner with the empty object and the instance types of two classes. -/
def knotInterner : TypeId × TypeId × TypeId × Interner :=
  let hash : StructuralKey → Nat := fun _ => 0
  let (empty, interner) := (Interner.withIntrinsics hash).internObject hash {}
  let (base, interner) := interner.internClassInstance hash 1 []
  let (heir, interner) := interner.internClassInstance hash 2 []
  (empty, base, heir, interner)

/-- Class 1 has an error in its surface and mentions class 2, which implements class 1. -/
def knotDrafts : ClassDrafts Unit :=
  let (empty, base, heir, _) := knotInterner
  Std.TreeMap.ofList [
    ((1 : ClassId), ({
      classId := 1, recoveryOrder := ⟨.user 0, 1, 1⟩, instanceTemplate := empty
      staticTemplate := empty, ordinaryIdentityRoots := [heir]
      surfaceOrigins := [()] } : ClassDraft Unit)),
    (2, {
      classId := 2, recoveryOrder := ⟨.user 0, 2, 2⟩, instanceTemplate := empty
      staticTemplate := empty, instanceHeritage := [⟨1, base, ()⟩] })]

/-- The publication of the two classes succeeds: the base is poisoned and its heir published. -/
theorem knot_succeeds :
    ∃ publication interner', (finishWithInherited (fun _ => 0) 3 {} ∅ knotDrafts).outcome
        knotInterner.2.2.2 = some (.ok publication, interner') ∧
      publication.published.states.lookup 1 = some .poisoned ∧
      publication.published.states.lookup 2 = some .published := by
  have hstates : ((finishWithInherited (fun _ => 0) 3 {} ∅ knotDrafts).outcome
      knotInterner.2.2.2).any (fun result => match result.1 with
        | .ok publication => decide (publication.published.states.lookup 1 = some .poisoned) &&
            decide (publication.published.states.lookup 2 = some .published)
        | .error _ => false) = true := by decide +kernel
  obtain ⟨⟨result, interner'⟩, hrun, hstates⟩ := (Option.any_eq_true _ _).mp hstates
  cases result with
  | error error => cases hstates
  | ok publication =>
    simp only [Bool.and_eq_true, decide_eq_true_eq] at hstates
    exact ⟨publication, interner', hrun, hstates⟩

theorem knot_published_bases_iff :
    ∃ publication interner', (finishWithInherited (fun _ => 0) 3 {} ∅ knotDrafts).outcome
        knotInterner.2.2.2 = some (.ok publication, interner') ∧
      (PoisonReachesHeirs {} knotDrafts
          (dependencyComponents knotInterner.2.2.2.store ∅ knotDrafts {}) publication.published ↔
        OriginsStayOutside {} knotDrafts
          (dependencyComponents knotInterner.2.2.2.store ∅ knotDrafts {})) := by
  obtain ⟨publication, interner', hrun, _⟩ := knot_succeeds
  exact ⟨publication, interner', hrun, published_bases_iff hrun⟩

/-- The poison of the base does not reach the heir in the same component. -/
theorem knot_not_poisonReachesHeirs :
    ∃ publication interner', (finishWithInherited (fun _ => 0) 3 {} ∅ knotDrafts).outcome
        knotInterner.2.2.2 = some (.ok publication, interner') ∧
      ¬ PoisonReachesHeirs {} knotDrafts
        (dependencyComponents knotInterner.2.2.2.store ∅ knotDrafts {}) publication.published := by
  have hclause : (knotDrafts[2]?).any (fun draft =>
      draft.allHeritage.any (fun clause => clause.target = 1)) = true := by decide +kernel
  have hbase : (1 : ClassId) ∈ knotDrafts := by decide +kernel
  obtain ⟨publication, interner', hrun, hpoisoned, hpublished⟩ := knot_succeeds
  obtain ⟨draft, hdraft, hclause⟩ := (Option.any_eq_true _ _).mp hclause
  obtain ⟨clause, hclause, htarget⟩ := any_eq_true.mp hclause
  rw [decide_eq_true_eq] at htarget
  refine ⟨publication, interner', hrun, fun hreaches => ?_⟩
  have hresult := (hreaches.bases 2 draft hdraft hpublished clause hclause).1 (htarget ▸ hbase)
  rw [htarget, hpoisoned] at hresult
  cases hresult

end Typokat.Check
