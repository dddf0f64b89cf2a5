import Typokat.Query.PlannerMethods

/-!
# What the Planner Answers

A visit settles the type that it is about, and an expansion answers its demand.  A visit that
returns early found the type in an overlay or among the visited types, which says the same of
the type; one that is still under way says nothing, but no expansion starts inside of a visit.

## Main Results

- `Planner.settles_visitNode` : the work of a visit settles its type
- `Planner.meets_visitWithPolicy` : a visit settles the type of an evaluation
- `Planner.answers_expandRelationDemand` : an expansion answers its demand
-/

namespace Typokat.Query

open Types Check Lib Lib.Attempt Keeps ProjectionPlan Option

namespace Planner

variable {I : Type} {env : PlannerEnvironment I} {tag : TypeTag} {ty : TypeId}

/-! ## §1 Visits -/

section Visits

variable {visit : TypeId → SemanticVisitPolicy → PlannerM I TypeId}
  (hvisit : ∀ ty policy, Keeps (frame env) (visit ty policy))

include hvisit

omit hvisit in
theorem settles_of_evaluated {x : PlannerM I TypeId} (hne : tag ≠ .classInstance)
    (hx : Meets (frame env) (HasTag env tag ty) x (fun _ => Evaluated ty)) :
    Meets (frame env) (HasTag env tag ty) x (fun _ => Settled env ty) :=
  (Meets.carry stable_hasTag hx).weaken (fun _ h => ⟨h, h⟩)
    (fun _ _ h => Evaluated.settled h.1 h.2 hne)

omit hvisit in
theorem settles_projectClassOuter :
    Meets (frame env) (HasTag env .classInstance ty) (projectClassOuter env ty)
      (fun _ => Settled env ty) :=
  (Meets.carry stable_hasTag (meets_projectClassOuter ty)).weaken (fun _ h => ⟨trivial, h⟩)
    (fun _ _ h => Projected.settled (h.1 h.2) h.2)

theorem settles_projectClass :
    Meets (frame env) (HasTag env .classInstance ty) (projectClass env visit ty)
      (fun _ => Settled env ty) := by
  refine Meets.lasting stable_settled settles_projectClassOuter (fun projection => ?_)
  exact bind (discard (hvisit _ _)) (fun _ => pure _)

/-- A type without a demand of its own is settled as soon as it is in the arena. -/
theorem settles_children (policy : SemanticVisitPolicy)
    (hnone : ∀ (plan : ProjectionPlan) (store : Store), store.tag ty = some tag →
      plan.relationDemand store ty = none) :
    Meets (frame env) (HasTag env tag ty)
      (do
        let children ← readStore env (fun store => queryChildren store ty)
        .forEach (fun child => .discard (visit child policy.operandPolicy)) children
        pure ty)
      (fun _ => Settled env ty) := by
  refine Meets.after stable_hasTag (keeps_readStore _) (fun children => ?_)
  refine Meets.after stable_hasTag
    (forEach (fun child => discard (hvisit _ _)) children) (fun _ => ?_)
  exact Meets.pure (fun _ _ h => ⟨⟨tag, h⟩, .inr (hnone _ _ h)⟩)

/-- **The work of a visit settles its type**, whatever its tag is. -/
theorem settles_visitNode (fuel : Nat) (policy : SemanticVisitPolicy) :
    Meets (frame env) (HasTag env tag ty) (visitNode env visit fuel ty policy tag)
      (fun _ => Settled env ty) := by
  cases tag
  case classInstance =>
    unfold visitNode
    split_ifs
    · exact settles_projectClass hvisit
    · exact settles_projectClassOuter
  case deferredIndexedAccess =>
    exact settles_of_evaluated (by decide) (meets_evaluateDeferredIndexed hvisit fuel ty policy)
  case keyof => exact settles_of_evaluated (by decide) (meets_evaluateKeyof hvisit ty policy)
  case declared =>
    exact settles_of_evaluated (by decide)
      (Meets.anywhere (meets_evaluateDeclared hvisit ty policy))
  case conditional | instantiation | union | mapped | template =>
    exact settles_of_evaluated (by decide)
      (Meets.anywhere (meets_evaluateExisting hvisit ty policy))
  all_goals
    apply settles_children hvisit policy
    intro plan store htag
    unfold relationDemand
    rw [htag]

/-- A visit that is not yet under way settles its type, and closes what it has opened. -/
theorem settles_bracket (fuel : Nat) (policy : SemanticVisitPolicy) :
    Meets (frame env) (fun s => HasTag env tag ty s ∧ ty ∉ s.visiting)
      (.bracket (enter ty) (visitNode env visit fuel ty policy tag) (leave ty))
      (fun _ => Settled env ty) := by
  refine Meets.bracket (settles_visitNode hvisit fuel policy) ?_ ?_
  · intro s hinv hs
    exact ⟨⟨hinv.memo, hinv.visited, hinv.plan⟩, hs.1⟩
  · intro s a s' hinv hs hinv' hlater hsettled
    have hvisiting : (leave ty s').visiting = s.visiting := by
      show s'.visiting.erase ty = s.visiting
      rw [hlater.visiting]
      exact Finset.erase_insert hs.2
    have hleft : Later env s (leave ty s') := ⟨hlater.grows, hvisiting, hlater.memo, hlater.plan⟩
    refine ⟨⟨hinv'.memo, ?_, hinv'.plan⟩, hleft, hsettled⟩
    intro x hx
    rcases Finset.mem_insert.mp hx with rfl | hx
    · exact hsettled
    · exact hinv'.visited x hx

end Visits

/-- The tags of the types that a visit evaluates by name. -/
def evaluableTags : List TypeTag :=
  [.deferredIndexedAccess, .keyof, .conditional, .instantiation, .mapped, .template]

/-- An overlay that replaces such a type knows that it was evaluated. -/
theorem settled_of_overlayHit {s : Planner I} (hinv : Consistent env s) (htag : HasTag env tag ty s)
    (hevaluable : tag ∈ evaluableTags) {normalized : TypeId}
    (h : overlayHit env s ty = some normalized) : Settled env ty s := by
  have hclass : tag ≠ .classInstance := by
    rintro rfl
    exact absurd hevaluable (by decide)
  unfold overlayHit at h
  split_ifs at h with hreconstructs
  split at h
  case h_2 => cases h
  case h_1 result hnormalize =>
    split_ifs at h with hne
    obtain ⟨successor, hnext, hsuccessor⟩ := follow_moved hnormalize hne
    unfold next at hnext
    rcases or_eq_some_iff.mp hnext with hfound | ⟨-, hfound⟩
    · rcases or_eq_some_iff.mp hfound with hfound | ⟨-, hfound⟩
      · -- a local evaluation
        have hresolved := hinv.plan.evaluated ty (Finmap.mem_of_lookup_eq_some hfound)
        exact Evaluated.settled (.inr hresolved) htag hclass
      · -- a durable one
        by_cases hinstantiation : tag = .instantiation
        · subst hinstantiation
          have hdurable : ty ∈ s.durableEvaluationMemo := by
            rw [durable, hinv.memo, bind_some] at hfound
            exact Finmap.mem_of_lookup_eq_some hfound
          have hoverlay : DerivedType.plain ty ∈ s.plan.derivedOverlay := by
            by_contra hnot
            apply hreconstructs
            unfold reconstructsInstantiation
            rw [decide_eq_true_eq]
            exact ⟨htag, hdurable, hnot⟩
          rcases hinv.plan.derived _ hoverlay with hinstance | hresolved
          · exact absurd (htag.symm.trans hinstance) (by decide)
          · exact Evaluated.settled (.inr hresolved) htag hclass
        · refine ⟨⟨tag, htag⟩, .inr ?_⟩
          have hnot : ∀ other, tag ≠ other →
              (env.store s.interner).tag ty ≠ some other := by
            intro other hother heq
            rw [HasTag, heq, some.injEq] at htag
            exact hother htag.symm
          apply relationDemand_of_durable hfound hsuccessor (hnot _ hclass) _
            (hnot _ hinstantiation)
          apply hnot
          rintro rfl
          exact absurd hevaluable (by decide)
    · -- a class projection is about a class
      have hinstance := hinv.plan.projected ty (Finmap.mem_of_lookup_eq_some hfound)
      rw [HasTag, hinstance, some.injEq] at htag
      exact absurd htag.symm hclass

/-- A type that is not being visited is settled. -/
def SettledUnlessVisiting (env : PlannerEnvironment I) (ty : TypeId) (s : Planner I) : Prop :=
  ty ∉ s.visiting → Settled env ty s

/-- The visit of a type that no overlay replaces. -/
theorem meets_visitUnreplaced {visit : TypeId → SemanticVisitPolicy → PlannerM I TypeId}
    (hvisit : ∀ ty policy, Keeps (frame env) (visit ty policy)) (fuel : Nat)
    (policy : SemanticVisitPolicy) :
    Meets (frame env) (HasTag env tag ty)
      (do
        if ← Attempt.read (fun planner => decide (ty ∈ planner.visited)) then pure ty
        else if ← Attempt.read (fun planner => decide (ty ∈ planner.visiting)) then pure ty
        else .bracket (enter ty) (visitNode env visit fuel ty policy tag) (leave ty))
      (fun _ => SettledUnlessVisiting env ty) := by
  have hvisited : Meets (frame env) (HasTag env tag ty)
      (.read (fun planner => decide (ty ∈ planner.visited)) : PlannerM I Bool)
      (fun visited s => HasTag env tag ty s ∧ visited = decide (ty ∈ s.visited)) :=
    Meets.read (fun _ _ h => ⟨h, rfl⟩)
  have hvisiting : Meets (frame env)
      (fun s => HasTag env tag ty s ∧ false = decide (ty ∈ s.visited))
      (.read (fun planner => decide (ty ∈ planner.visiting)) : PlannerM I Bool)
      (fun visiting s => HasTag env tag ty s ∧ visiting = decide (ty ∈ s.visiting)) :=
    Meets.read (fun _ _ h => ⟨h.1, rfl⟩)
  refine Meets.bind hvisited (fun visited => ?_)
  cases visited with
  | true => exact Meets.pure (fun s hinv h _ => hinv.visited ty (of_decide_eq_true h.2.symm))
  | false =>
    refine Meets.bind hvisiting (fun visiting => ?_)
    cases visiting with
    | true => exact Meets.pure (fun s _ h hnot => absurd (of_decide_eq_true h.2.symm) hnot)
    | false =>
      exact (settles_bracket hvisit fuel policy).weaken
        (fun _ h => ⟨h.1, of_decide_eq_false h.2.symm⟩) (fun _ _ h _ => h)

/-- **A visit settles the type of an evaluation**, unless a visit of the type is under way. -/
theorem meets_visitWithPolicy (fuel : Nat) (ty : TypeId) (policy : SemanticVisitPolicy) :
    Meets (frame env) (fun _ => True) (visitWithPolicy env fuel ty policy)
      (fun _ s => (∃ tag ∈ evaluableTags, HasTag env tag ty s) →
        SettledUnlessVisiting env ty s) := by
  induction fuel generalizing ty policy with
  | zero => exact Meets.halt
  | succ fuel ih =>
    have hvisit : ∀ ty policy, Keeps (frame env) (visitWithPolicy env fuel ty policy) :=
      fun ty policy => (ih ty policy).keeps
    refine Meets.bind (meets_tag ty) (fun tag => ?_)
    have hhit : Meets (frame env) (fun s => True ∧ HasTag env tag ty s)
        (.read (fun planner => overlayHit env planner ty) : PlannerM I (Option TypeId))
        (fun hit s => HasTag env tag ty s ∧
          (hit ≠ none → tag ∈ evaluableTags → Settled env ty s)) := by
      apply Meets.read
      intro s hinv h
      refine ⟨h.2, ?_⟩
      intro hhit hevaluable
      obtain ⟨normalized, hnormalized⟩ := ne_none_iff_exists'.mp hhit
      exact settled_of_overlayHit hinv h.2 hevaluable hnormalized
    refine Meets.bind hhit (fun hit => ?_)
    cases hit with
    | some normalized =>
      have hstable : (frame env).Stable (fun s => HasTag env tag ty s ∧
          (tag ∈ evaluableTags → Settled env ty s)) := by
        apply stable_hasTag.and
        intro s s' h hlater hevaluable
        exact stable_settled s s' (h hevaluable) hlater
      have hread : Keeps (frame env) (.read (fun planner =>
          (planner.plan.normalize ty).toOption.getD normalized) : PlannerM I TypeId) :=
        read _
      have hkeeps := bind (keeps_visitDemandResult hvisit normalized policy)
        (fun _ => hread)
      refine (hkeeps.stable hstable).weaken (fun _ h => ⟨h.1, h.2 (some_ne_none _)⟩) ?_
      rintro _ s ⟨htag, hsettled⟩ ⟨tag', hevaluable, htag'⟩ _
      have heq : tag = tag' := some.inj (htag.symm.trans htag')
      exact hsettled (heq ▸ hevaluable)
    | none =>
      exact (meets_visitUnreplaced hvisit fuel policy).weaken (fun _ h => h.1)
        (fun _ _ h _ => h)

theorem keeps_visitWithPolicy (fuel : Nat) (ty : TypeId) (policy : SemanticVisitPolicy) :
    Keeps (frame env) (visitWithPolicy env fuel ty policy) :=
  (meets_visitWithPolicy fuel ty policy).keeps

/-! ## §2 Demands -/

theorem keeps_overrideNativeLength (surface length : TypeId) :
    Keeps (frame env) (overrideNativeLength env surface length) := by
  refine bind (keeps_readStore _) ?_
  intro found
  cases found with
  | none => exact pure _
  | some object =>
    dsimp only
    split
    · exact pure _
    · exact bind (keeps_intern _) (fun _ => pure _)

theorem keeps_nativeSurface (source : TypeId) (context : LibraryObjectRelationContext)
    (native : NativeSourceSurface) :
    Keeps (frame env) (nativeSurface env source context native) := by
  cases native
  case array readonly argument length =>
    refine bind (keeps_intern _) ?_
    intro outcome
    cases outcome with
    | cycleClean surface => exact keeps_overrideNativeLength _ _
    | cycleTainted surface =>
      exact bind (keeps_markCycleTainted _) (fun _ => keeps_overrideNativeLength _ _)
  all_goals exact pure _

/-- **A demand for a surface is answered.** -/
theorem meets_projectApparentSurface (source : TypeId) :
    Meets (frame env) (fun _ => True) (projectApparentSurface env source)
      (fun _ s => s.plan.surfaced source = true) := by
  have hrecord : ∀ surface, Meets (frame env) (fun _ => True)
      (updatePlan (fun plan => plan.recordSurface source surface))
      (fun _ s => s.plan.surfaced source = true) := fun surface =>
    meets_updatePlan (fun _ => grown_recordSurface _ _)
      (fun _ h _ => h.recordSurface _ _) (fun _ _ => surfaced_recordSurface _ _)
  have hsurfaced : Meets (frame env) (fun _ => True)
      (.read (fun planner => planner.plan.surfaced source) : PlannerM I Bool)
      (fun surfaced s => surfaced = s.plan.surfaced source) := Meets.read (fun _ _ _ => rfl)
  refine Meets.bind hsurfaced (fun surfaced => ?_)
  cases surfaced with
  | true => exact Meets.pure (fun _ _ h => h.symm)
  | false =>
    apply Meets.anywhere
    refine Meets.bind (read _) ?_
    intro context
    cases context with
    | none => exact hrecord none
    | some context =>
      refine Meets.bind (keeps_intern _) ?_
      intro native
      cases native with
      | none => exact hrecord none
      | some native => exact Meets.bind (keeps_nativeSurface _ _ _) (fun surface => hrecord surface)

/-- The demand is one that the plan makes. -/
def Asks (env : PlannerEnvironment I) (demand : RelationDemand) (s : Planner I) : Prop :=
  (∃ ty, s.plan.relationDemand (env.store s.interner) ty = some demand) ∨
    ∃ ty, s.plan.apparentSurface (env.store s.interner) ty = .needs demand

/-- The demand is answered. -/
def Fulfilled (env : PlannerEnvironment I) : RelationDemand → Planner I → Prop
  | .apparentSurface ty, s => s.plan.surfaced ty = true
  | demand, s => Settled env demand.ty s

theorem stable_fulfilled (demand : RelationDemand) :
    (frame env).Stable (Fulfilled env demand) := by
  cases demand with
  | apparentSurface ty => exact stable_surfaced
  | classProjection ty | evaluation ty | derivedClassProjection derived
  | derivedEvaluation derived => exact stable_settled

/-- A demand for a projection is about a class, and one for an evaluation about a type that the
    planner evaluates by name. -/
theorem Asks.tag_of {demand : RelationDemand} {s : Planner I} (h : Asks env demand s) :
    (∃ ty, demand = .classProjection ty ∧ HasTag env .classInstance ty s) ∨
      (∃ ty tag, demand = .evaluation ty ∧ HasTag env tag ty s ∧
        (tag = .declared ∨ tag ∈ evaluableTags)) ∨
      ∃ ty, demand = .apparentSurface ty := by
  rcases h with ⟨ty, h⟩ | ⟨ty, h⟩
  · cases htag : (env.store s.interner).tag ty with
    | none =>
      unfold relationDemand at h
      simp [htag] at h
    | some tag =>
      unfold relationDemand at h
      rw [htag] at h
      cases tag
      case classInstance =>
        simp only at h
        split_ifs at h
        cases h
        exact .inl ⟨ty, rfl, htag⟩
      case declared | instantiation | deferredIndexedAccess | keyof | conditional | mapped |
          template =>
        simp only at h
        split_ifs at h
        cases h
        exact .inr (.inl ⟨ty, _, rfl, htag, by decide⟩)
      all_goals cases h
  · exact .inr (.inr ⟨ty, (needs_of_apparentSurface h).1⟩)

theorem keeps_visitRelationRoot (fuel : Nat) (ty : TypeId) :
    Keeps (frame env) (visitRelationRoot env fuel ty) :=
  discard (keeps_visitWithPolicy _ _ _)

theorem keeps_expandRelationDemand (fuel : Nat) (demand : RelationDemand) :
    Keeps (frame env) (expandRelationDemand env fuel demand) := by
  cases demand with
  | classProjection ty => exact discard (keeps_projectClassOuter _)
  | evaluation ty =>
    refine bind (keeps_tag ty) (fun tag => ?_)
    split
    · exact discard (meets_evaluateDeclared (keeps_visitWithPolicy fuel) _ _).keeps
    · exact keeps_visitRelationRoot _ _
  | derivedClassProjection derived =>
    exact discard (meets_projectClassOuterDerived _).keeps
  | derivedEvaluation derived =>
    refine bind (keeps_tag _) (fun tag => ?_)
    split
    · exact discard (meets_evaluateDeclaredDerived (keeps_visitWithPolicy fuel) _ _).keeps
    · exact discard (keeps_evaluateExistingDerived (keeps_visitWithPolicy fuel) _ _)
    · exact keeps_visitRelationRoot _ _
  | apparentSurface ty => exact (meets_projectApparentSurface ty).keeps

/-- What a demand for an evaluation says about its type. -/
def Evaluable (env : PlannerEnvironment I) (ty : TypeId) (s : Planner I) : Prop :=
  ty ∉ s.visiting ∧ ∃ tag, HasTag env tag ty s ∧ (tag = .declared ∨ tag ∈ evaluableTags)

theorem stable_evaluable : (frame env).Stable (Evaluable env ty) := by
  intro s s' h hlater
  obtain ⟨hvisiting, tag, htag, hkind⟩ := h
  exact ⟨stable_notVisiting s s' hvisiting hlater, tag, stable_hasTag s s' htag hlater, hkind⟩

/-- **The expansion of an evaluation settles its type.** -/
theorem settles_expandEvaluation (fuel : Nat) :
    Meets (frame env) (Evaluable env ty) (expandRelationDemand env fuel (.evaluation ty))
      (fun _ => Settled env ty) := by
  refine Meets.bind (meets_tag ty) (fun tag => ?_)
  by_cases hdeclared : tag = .declared
  · subst hdeclared
    have hevaluate : Meets (frame env) (fun _ => True)
        (evaluateDeclared env (visitWithPolicy env fuel) ty .relationRootOuterOnly)
        (fun _ => Evaluated ty) := meets_evaluateDeclared (keeps_visitWithPolicy fuel) ty _
    exact Meets.discard ((settles_of_evaluated (by decide) (Meets.anywhere hevaluate)).weaken
      (fun _ h => h.2) (fun _ _ h => h))
  · have hroot : Meets (frame env) (fun s => Evaluable env ty s ∧ HasTag env tag ty s)
        (visitRelationRoot env fuel ty) (fun _ => Settled env ty) := by
      refine Meets.discard ((Meets.carry (stable_evaluable.and stable_hasTag)
        (meets_visitWithPolicy fuel ty .relationRootOuterOnly)).weaken
          (fun _ h => ⟨trivial, h⟩) ?_)
      rintro _ s ⟨hsettles, ⟨hvisiting, tag', htag', hkind⟩, htag⟩
      have heq : tag' = tag := some.inj (htag'.symm.trans htag)
      subst heq
      exact hsettles ⟨tag', hkind.resolve_left hdeclared, htag⟩ hvisiting
    cases tag
    case declared => exact absurd rfl hdeclared
    all_goals exact hroot

/-- What an expansion needs to know to answer its demand. -/
def Answerable (env : PlannerEnvironment I) : RelationDemand → Planner I → Prop
  | .classProjection ty, s => HasTag env .classInstance ty s
  | .evaluation ty, s => Evaluable env ty s
  | .apparentSurface _, _ => True
  | .derivedClassProjection _, _ | .derivedEvaluation _, _ => False

theorem stable_answerable (demand : RelationDemand) :
    (frame env).Stable (Answerable env demand) := by
  cases demand with
  | classProjection ty => exact stable_hasTag
  | evaluation ty => exact stable_evaluable
  | apparentSurface ty | derivedClassProjection derived | derivedEvaluation derived =>
    exact fun _ _ h _ => h

/-- A demand of the plan can be answered between two expansions. -/
theorem Asks.answerable {demand : RelationDemand} {s : Planner I} (h : Asks env demand s)
    (hvisiting : s.visiting = ∅) : Answerable env demand s := by
  rcases h.tag_of with ⟨ty, rfl, htag⟩ | ⟨ty, tag, rfl, htag, hkind⟩ | ⟨ty, rfl⟩
  · exact htag
  · exact ⟨by rw [hvisiting]; exact Finset.notMem_empty _, tag, htag, hkind⟩
  · trivial

/-- **An expansion answers its demand.** -/
theorem answers_expandRelationDemand (fuel : Nat) (demand : RelationDemand) :
    Meets (frame env) (Answerable env demand) (expandRelationDemand env fuel demand)
      (fun _ => Fulfilled env demand) := by
  cases demand with
  | classProjection ty => exact Meets.discard settles_projectClassOuter
  | evaluation ty => exact settles_expandEvaluation fuel
  | apparentSurface ty => exact (meets_projectApparentSurface ty).anywhere
  | derivedClassProjection derived => exact Meets.vacuous (fun _ h => h)
  | derivedEvaluation derived => exact Meets.vacuous (fun _ h => h)

end Planner

end Typokat.Query
