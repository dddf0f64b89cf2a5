import Typokat.Query.Planner

/-!
# The Methods of the Planner

Every method of the planner that is asked about a type either gives the type up or adds it to a
resolved set, and nothing is ever taken out of either.  The methods that visit other types do so
whatever the visits do, as long as these keep a consistent planner consistent.

## Main Definitions

- `Planner.Later` : what a planner keeps on the way
- `Planner.Consistent` : the overlays and the visited types agree with the resolved sets

## Main Results

- `Planner.meets_projectClassOuterDerived` : a class application is given up or projected
- `Planner.meets_evaluateExisting` : an evaluation gives its type up or evaluates it
-/

namespace Typokat.Types.Store.WellFormed

variable {s : Store}

/-- A row with the tag of a side table has an entry there. -/
theorem entry_ne_none (h : s.WellFormed) {t : SideTable} {id : TypeId}
    (htag : s.tag id = some t.tag) : s.entry t id ≠ none := by
  have hid : id < s.len := (s.tag_isSome_iff id).mp (by rw [htag]; rfl)
  obtain ⟨row, hrow⟩ := h.row_isSome hid
  rw [row_of_entry_tag htag] at hrow
  intro hnone
  rw [hnone] at hrow
  cases hrow

theorem inlinePayload_ne_none (h : s.WellFormed) {tag : TypeTag} {id : TypeId}
    (htag : s.tag id = some tag) : s.inlinePayload tag id ≠ none := by
  obtain ⟨payload, hpayload⟩ := h.payload_isSome htag
  rw [inlinePayload, if_pos htag, hpayload]
  exact Option.some_ne_none payload

end Typokat.Types.Store.WellFormed

namespace Typokat.Query

open Types Check Lib Lib.Attempt Keeps ProjectionPlan

namespace InternerView

variable {I : Type} {view : InternerView I}

theorem Grows.refl (interner : I) : view.Grows interner interner := by
  intro ty row h
  exact h

theorem Grows.trans {i₁ i₂ i₃ : I} (h₁₂ : view.Grows i₁ i₂) (h₂₃ : view.Grows i₂ i₃) :
    view.Grows i₁ i₃ := by
  intro ty row h
  exact h₂₃ ty row (h₁₂ ty row h)

/-- A tag stays. -/
theorem Grows.tag {before after : I} (h : view.Grows before after) {ty : TypeId} {tag : TypeTag}
    (htag : (view.store before).tag ty = some tag) : (view.store after).tag ty = some tag := by
  have hty : ty < (view.store before).len := (Store.tag_isSome_iff _ ty).mp (by rw [htag]; rfl)
  obtain ⟨row, hrow⟩ := (view.wellFormed before).row_isSome hty
  rw [Store.tag_of_row hrow] at htag
  rw [Store.tag_of_row (h ty row hrow), htag]

end InternerView

namespace ProjectionPlan

variable {plan : ProjectionPlan} {store : Store} {ty : TypeId}

/-- No evaluation of an evaluated type is asked for. -/
theorem relationDemand_of_evaluated (htag : store.tag ty ≠ some .classInstance)
    (h : ty ∈ plan.resolvedEvaluations) : plan.relationDemand store ty = none := by
  unfold relationDemand
  split
  case h_1 hclass => exact absurd hclass htag
  all_goals simp [h]

theorem relationDemand_of_projected (htag : store.tag ty = some .classInstance)
    (h : ty ∈ plan.resolvedClassProjections) : plan.relationDemand store ty = none := by
  unfold relationDemand
  simp [htag, h]

/-- A durable answer other than the type itself is an answer. -/
theorem relationDemand_of_durable {result : TypeId} (hdurable : plan.durable ty = some result)
    (hne : result ≠ ty) (htag : store.tag ty ≠ some .classInstance)
    (hdeclared : store.tag ty ≠ some .declared)
    (hinstantiation : store.tag ty ≠ some .instantiation) :
    plan.relationDemand store ty = none := by
  unfold relationDemand
  split
  case h_1 h => exact absurd h htag
  case h_2 h => exact absurd h hdeclared
  case h_3 h => exact absurd h hinstantiation
  all_goals simp [hdurable, hne]

end ProjectionPlan

namespace Planner

variable {I : Type} (env : PlannerEnvironment I)

/-! ## §1 What a planner keeps -/

/-- The type has the tag. -/
def HasTag (tag : TypeTag) (ty : TypeId) (planner : Planner I) : Prop :=
  (env.store planner.interner).tag ty = some tag

/-- Nothing more is asked about a type of the arena. -/
def Settled (ty : TypeId) (planner : Planner I) : Prop :=
  (∃ tag, HasTag env tag ty planner) ∧ planner.plan.Answered (env.store planner.interner) ty

/-- The application was given up or projected. -/
def Projected (ty : TypeId) (planner : Planner I) : Prop :=
  ty ∈ planner.plan.frontier ∨ ty ∈ planner.plan.resolvedClassProjections

/-- The type was given up or evaluated. -/
def Evaluated (ty : TypeId) (planner : Planner I) : Prop :=
  ty ∈ planner.plan.frontier ∨ ty ∈ planner.plan.resolvedEvaluations

/-- What a planner keeps on the way. -/
structure Later (before after : Planner I) : Prop where
  grows : env.Grows before.interner after.interner
  visiting : after.visiting = before.visiting
  memo : after.durableEvaluationMemo = before.durableEvaluationMemo
  plan : before.plan.Grown after.plan

/-- The overlays and the visited types agree with the resolved sets. -/
structure Consistent (planner : Planner I) : Prop where
  memo : planner.plan.durableEvaluationMemo = some planner.durableEvaluationMemo
  visited : ∀ ty ∈ planner.visited, Settled env ty planner
  plan : planner.plan.Coherent (env.store planner.interner)

variable {env}

theorem Later.refl (planner : Planner I) : Later env planner planner where
  grows := InternerView.Grows.refl _
  visiting := rfl
  memo := rfl
  plan := ProjectionPlan.Grown.refl _

theorem Later.trans {s₁ s₂ s₃ : Planner I} (h₁₂ : Later env s₁ s₂) (h₂₃ : Later env s₂ s₃) :
    Later env s₁ s₃ where
  grows := h₁₂.grows.trans h₂₃.grows
  visiting := h₂₃.visiting.trans h₁₂.visiting
  memo := h₂₃.memo.trans h₁₂.memo
  plan := h₁₂.plan.trans h₂₃.plan

variable (env) in
/-- The frame of the planner's methods. -/
def frame : Frame (Planner I) where
  inv := Consistent env
  later := Later env
  refl := Later.refl
  trans := fun _ _ _ => Later.trans

/-! ## §2 What stays true -/

variable {tag : TypeTag} {ty : TypeId}

theorem stable_hasTag : (frame env).Stable (HasTag env tag ty) := by
  intro s s' h hlater
  exact hlater.grows.tag h

theorem stable_settled : (frame env).Stable (Settled env ty) := by
  intro s s' h hlater
  obtain ⟨⟨tag, htag⟩, hanswered⟩ := h
  have htag' : HasTag env tag ty s' := stable_hasTag s s' htag hlater
  exact ⟨⟨tag, htag'⟩, hanswered.grown (htag'.trans htag.symm) hlater.plan⟩

theorem stable_projected : (frame env).Stable (Projected ty) := by
  intro s s' h hlater
  exact h.imp (hlater.plan.frontier ty) (fun hmem => hlater.plan.projections hmem)

theorem stable_evaluated : (frame env).Stable (Evaluated ty) := by
  intro s s' h hlater
  exact h.imp (hlater.plan.frontier ty) (fun hmem => hlater.plan.evaluations hmem)

theorem stable_surfaced : (frame env).Stable (fun s => s.plan.surfaced ty = true) := by
  intro s s' h hlater
  exact hlater.plan.surfaces ty h

theorem stable_notVisiting : (frame env).Stable (fun s => ty ∉ s.visiting) := by
  intro s s' h hlater
  rw [hlater.visiting]
  exact h

theorem Projected.settled {s : Planner I} (h : Projected ty s)
    (htag : HasTag env .classInstance ty s) : Settled env ty s :=
  ⟨⟨_, htag⟩, h.imp id (relationDemand_of_projected htag)⟩

theorem Evaluated.settled {s : Planner I} (h : Evaluated ty s) (htag : HasTag env tag ty s)
    (hne : tag ≠ .classInstance) : Settled env ty s := by
  refine ⟨⟨_, htag⟩, h.imp id (relationDemand_of_evaluated ?_)⟩
  intro hclass
  rw [HasTag, hclass, Option.some.injEq] at htag
  exact hne htag.symm

/-- A later planner is consistent if its plan is coherent and what it has newly visited is
    settled. -/
theorem Consistent.step {s s' : Planner I} (h : Consistent env s) (hlater : Later env s s')
    (hvisited : ∀ ty ∈ s'.visited, ty ∈ s.visited ∨ Settled env ty s')
    (hplan : s'.plan.Coherent (env.store s'.interner)) : Consistent env s' where
  memo := by rw [hlater.plan.memo, hlater.memo, h.memo]
  visited := by
    intro ty hty
    rcases hvisited ty hty with hold | hnew
    · exact stable_settled s s' (h.visited ty hold) hlater
    · exact hnew
  plan := hplan

/-! ## §3 Reading and recording -/

variable {pre : Planner I → Prop}

/-- A change outside of what is kept. -/
theorem keeps_update {f : Planner I → Planner I} (hplan : ∀ s, (f s).plan = s.plan)
    (hinterner : ∀ s, (f s).interner = s.interner) (hvisiting : ∀ s, (f s).visiting = s.visiting)
    (hvisited : ∀ s, (f s).visited = s.visited)
    (hmemo : ∀ s, (f s).durableEvaluationMemo = s.durableEvaluationMemo) :
    Keeps (frame env) (.update f : PlannerM I Unit) := by
  apply Meets.update
  intro s hinv _
  have hlater : Later env s (f s) := by
    refine ⟨?_, hvisiting s, hmemo s, ?_⟩
    · rw [hinterner]
      exact InternerView.Grows.refl _
    · rw [hplan]
      exact ProjectionPlan.Grown.refl _
  refine ⟨hinv.step hlater ?_ ?_, hlater, trivial⟩
  · intro ty hty
    rw [hvisited] at hty
    exact .inl hty
  · rw [hplan, hinterner]
    exact hinv.plan

/-- A change of the plan that takes nothing back. -/
theorem meets_updatePlan {f : ProjectionPlan → ProjectionPlan} {post : Planner I → Prop}
    (hgrown : ∀ plan : ProjectionPlan, plan.Grown (f plan))
    (hcoherent : ∀ s, s.plan.Coherent (env.store s.interner) → pre s →
      (f s.plan).Coherent (env.store s.interner))
    (hpost : ∀ s, pre s → post { s with plan := f s.plan }) :
    Meets (frame env) pre (updatePlan f) (fun _ s => post s) := by
  apply Meets.update
  intro s hinv hs
  have hlater : Later env s { s with plan := f s.plan } :=
    ⟨InternerView.Grows.refl _, rfl, rfl, hgrown s.plan⟩
  exact ⟨hinv.step hlater (fun _ hty => .inl hty) (hcoherent s hinv.plan hs), hlater,
    hpost s hs⟩

theorem keeps_intern {R : Type}
    (operation : (interner : I) → Interned env.toInternerView interner R) :
    Keeps (frame env) (intern env operation) := by
  intro s a s' hinv _ hrun
  cases hrun
  have hgrows := (operation s.interner).grows
  have hlater : Later env s { s with interner := (operation s.interner).interner } :=
    ⟨hgrows, rfl, rfl, ProjectionPlan.Grown.refl _⟩
  exact ⟨hinv.step hlater (fun _ hty => .inl hty) (hinv.plan.onStore (fun _ _ => hgrows.tag)),
    hlater, trivial⟩

/-- What is read of the arena is what the arena says. -/
theorem meets_readStore {R : Type} (f : Store → R) :
    Meets (frame env) pre (readStore env f)
      (fun a s => pre s ∧ f (env.store s.interner) = a) :=
  Meets.read (fun _ _ hs => ⟨hs, rfl⟩)

theorem keeps_readStore {R : Type} (f : Store → R) : Keeps (frame env) (readStore env f) :=
  read _

theorem meets_tag (ty : TypeId) :
    Meets (frame env) pre (Planner.tag env ty) (fun tag s => pre s ∧ HasTag env tag ty s) := by
  refine Meets.bind (meets_readStore _) ?_
  intro found
  cases found with
  | none => exact Meets.halt
  | some tag => exact Meets.pure (fun _ _ h => h)

theorem keeps_tag (ty : TypeId) : Keeps (frame env) (Planner.tag env ty) :=
  (meets_tag ty).keeps

theorem keeps_markCycleTainted (ty : TypeId) :
    Keeps (frame env) (markCycleTainted ty) :=
  keeps_update (fun _ => rfl) (fun _ => rfl) (fun _ => rfl) (fun _ => rfl) (fun _ => rfl)

theorem meets_markFrontier (ty : TypeId) (reason : Exhaustion) :
    Meets (frame env) (fun _ => True) (markFrontier ty reason)
      (fun _ s => ty ∈ s.plan.frontier) := by
  refine Meets.bind (keeps_update (fun _ => rfl) (fun _ => rfl) (fun _ => rfl) (fun _ => rfl)
    (fun _ => rfl)) ?_
  intro _
  exact meets_updatePlan (fun _ => grown_giveUp reason)
    (fun _ h _ => h.giveUp ty reason) (fun _ _ => mem_frontier_giveUp reason)

theorem meets_recordEvaluation (source result : TypeId) :
    Meets (frame env) (fun _ => True) (recordEvaluation source result)
      (fun _ s => source ∈ s.plan.resolvedEvaluations) := by
  refine Meets.bind (keeps_update (fun _ => rfl) (fun _ => rfl) (fun _ => rfl) (fun _ => rfl)
    (fun _ => rfl)) ?_
  intro _
  exact meets_updatePlan (fun _ => grown_recordEvaluation source result)
    (fun _ h _ => h.recordEvaluation source result) (fun _ _ => Finset.mem_insert_self _ _)

theorem meets_recordDerivedEvaluation (source result : DerivedType) :
    Meets (frame env) (fun _ => True) (recordDerivedEvaluation source result)
      (fun _ s => source.ty ∈ s.plan.resolvedEvaluations) := by
  refine Meets.bind (meets_recordEvaluation source.ty result.ty) ?_
  intro _
  exact meets_updatePlan (fun _ => grown_overlayDerived source result)
    (fun _ h hs => h.overlayDerived result (.inr hs)) (fun _ hs => hs)

theorem keeps_instantiationOccurrenceDerived (ty : TypeId) :
    Keeps (frame env) (instantiationOccurrenceDerived env ty) := by
  refine bind (keeps_readStore _) ?_
  intro found
  cases found with
  | none => exact pure _
  | some _ => exact bind (keeps_intern _) (fun _ => pure _)

theorem keeps_occurrenceOf {derived : DerivedType}
    {occurrence : TypeId → PlannerM I (Option DerivedType)}
    (hoccurrence : ∀ ty, Keeps (frame env) (occurrence ty)) :
    Keeps (frame env) (occurrenceOf derived occurrence) := by
  unfold occurrenceOf
  split_ifs
  · exact pure _
  · exact hoccurrence _

theorem keeps_derivedArguments (occurrence : DerivedType) (edge : Nat → DerivationEdge)
    (parameters : List TypeParamId) (arguments : List TypeId) :
    Keeps (frame env) (derivedArguments env occurrence edge parameters arguments) :=
  read _

/-- **A recorded evaluation is resolved**, whether its provenance is known or not. -/
theorem meets_recordExistingEvaluation (source : DerivedType) (result : TypeId) :
    Meets (frame env) (fun _ => True) (recordExistingEvaluation env source result)
      (fun _ s => source.ty ∈ s.plan.resolvedEvaluations) := by
  refine Meets.bind (keeps_readStore _) ?_
  intro found
  cases found with
  | none => exact meets_recordEvaluation _ _
  | some instantiation =>
    refine Meets.bind (keeps_occurrenceOf keeps_instantiationOccurrenceDerived) ?_
    intro occurrence
    cases occurrence with
    | none => exact meets_recordEvaluation _ _
    | some occurrence =>
      refine Meets.bind (keeps_derivedArguments _ _ _ _) (fun map => ?_)
      refine Meets.bind (keeps_intern _) (fun derived => ?_)
      exact meets_recordDerivedEvaluation source derived

/-! ## §4 Classes -/

theorem keeps_admitApplication (application : TypeId) :
    Keeps (frame env) (admitApplication application) := by
  intro s a s' hinv _ hrun
  have hsame : Later env s s' ∧ s'.visited = s.visited ∧ s'.plan = s.plan ∧
      s'.interner = s.interner := by
    unfold admitApplication at hrun
    simp only [step, Except.ok.injEq, Prod.ext_iff] at hrun
    obtain ⟨-, rfl⟩ := hrun
    split_ifs
    · exact ⟨Later.refl s, rfl, rfl, rfl⟩
    · exact ⟨Later.refl s, rfl, rfl, rfl⟩
    · exact ⟨⟨InternerView.Grows.refl _, rfl, rfl, ProjectionPlan.Grown.refl _⟩, rfl, rfl, rfl⟩
  obtain ⟨hlater, hvisited, hplan, hinterner⟩ := hsame
  refine ⟨hinv.step hlater ?_ ?_, hlater, trivial⟩
  · intro ty hty
    exact .inl (hvisited ▸ hty)
  · rw [hplan, hinterner]
    exact hinv.plan

/-- A class application has an occurrence. -/
theorem meets_classInstanceOccurrenceDerived (ty : TypeId) :
    Meets (frame env) (HasTag env .classInstance ty) (classInstanceOccurrenceDerived env ty)
      (fun occurrence s => HasTag env .classInstance ty s ∧ occurrence ≠ none) := by
  refine Meets.bind (meets_readStore _) ?_
  intro found
  cases found with
  | none =>
    apply Meets.pure
    intro s _ h
    exact absurd h.2 ((env.wellFormed _).entry_ne_none (t := .classInstances) h.1)
  | some _ =>
    refine Meets.bind ((Meets.carry stable_hasTag (keeps_intern _)).weaken
      (fun _ h => ⟨trivial, h.1⟩) (fun _ _ h => h.2)) ?_
    intro occurrence
    exact Meets.pure (fun _ _ h => ⟨h, Option.some_ne_none _⟩)

theorem meets_occurrenceOf (application : DerivedType) :
    Meets (frame env) (HasTag env .classInstance application.ty)
      (occurrenceOf application (classInstanceOccurrenceDerived env))
      (fun occurrence s => HasTag env .classInstance application.ty s ∧ occurrence ≠ none) := by
  unfold occurrenceOf
  split_ifs
  · exact Meets.pure (fun _ _ h => ⟨h, Option.some_ne_none _⟩)
  · exact meets_classInstanceOccurrenceDerived _

theorem keeps_derivedProjection (application : TypeId) (surface : PublishedClassSurface)
    (map : FxHashMap TypeParamId DerivedType) :
    Keeps (frame env) (derivedProjection env application surface map) := by
  refine bind (read _) ?_
  intro found
  cases found with
  | some projection => exact keeps_intern _
  | none =>
    refine bind (keeps_intern _) ?_
    intro outcome
    cases outcome with
    | cycleClean derived =>
      refine bind ?_ (fun _ => pure _)
      exact keeps_update (fun _ => rfl) (fun _ => rfl) (fun _ => rfl) (fun _ => rfl)
        (fun _ => rfl)
    | cycleTainted derived => exact bind (keeps_markCycleTainted _) (fun _ => pure _)

/-- The projection of a published class is resolved. -/
theorem meets_projectSurface (application : DerivedType) (instance_ : ClassInstanceType)
    (surface : PublishedClassSurface) :
    Meets (frame env) (HasTag env .classInstance application.ty)
      (projectSurface env application instance_ surface)
      (fun _ => Projected application.ty) := by
  unfold projectSurface
  split_ifs
  · exact Meets.halt
  refine Meets.bind (meets_occurrenceOf application) ?_
  intro occurrence
  cases occurrence with
  | none => exact Meets.pure (fun _ _ h => absurd rfl h.2)
  | some occurrence =>
    have hstable : (frame env).Stable (fun s => HasTag env .classInstance application.ty s ∧
        Projected application.ty s) := stable_hasTag.and stable_projected
    have hresolve : Meets (frame env)
        (fun s => HasTag env .classInstance application.ty s ∧ some occurrence ≠ none)
        (updatePlan (fun plan => plan.resolveProjection application.ty))
        (fun _ s => HasTag env .classInstance application.ty s ∧ Projected application.ty s) :=
      meets_updatePlan (fun _ => grown_resolveProjection _)
        (fun _ h _ => h.resolveProjection _)
        (fun _ h => ⟨h.1, .inr (Finset.mem_insert_self _ _)⟩)
    refine Meets.bind hresolve (fun _ => ?_)
    refine Meets.after hstable (keeps_derivedArguments _ _ _ _) (fun map => ?_)
    refine Meets.after hstable (keeps_derivedProjection _ _ _) (fun projection => ?_)
    have hoverlay : Meets (frame env)
        (fun s => HasTag env .classInstance application.ty s ∧ Projected application.ty s)
        (updatePlan (fun plan => plan.overlayProjection application.ty projection.ty))
        (fun _ s => HasTag env .classInstance application.ty s ∧ Projected application.ty s) :=
      meets_updatePlan (fun _ => grown_overlayProjection _ _)
        (fun _ h hs => h.overlayProjection _ hs.1) (fun _ hs => hs)
    have hderived : Meets (frame env)
        (fun s => HasTag env .classInstance application.ty s ∧ Projected application.ty s)
        (updatePlan (fun plan => plan.overlayDerived application projection))
        (fun _ s => Projected application.ty s) :=
      meets_updatePlan (fun _ => grown_overlayDerived _ _)
        (fun _ h hs => h.overlayDerived _ (.inl hs.1)) (fun _ hs => hs.2)
    refine Meets.bind hoverlay (fun _ => Meets.bind hderived (fun _ => ?_))
    exact Meets.pure (fun _ _ h => h)

/-- **A class application is given up or projected.** -/
theorem meets_projectClassOuterDerived (application : DerivedType) :
    Meets (frame env) (fun _ => True) (projectClassOuterDerived env application)
      (fun _ s => HasTag env .classInstance application.ty s → Projected application.ty s) := by
  have hgiveUp : ∀ {pre : Planner I → Prop} (reason : Exhaustion),
      Meets (frame env) pre
        (do
          markFrontier application.ty reason
          pure application)
        (fun _ s => HasTag env .classInstance application.ty s → Projected application.ty s) := by
    intro pre reason
    refine Meets.bind ((meets_markFrontier application.ty reason).weaken (fun _ _ => trivial)
      (fun _ _ h => h)) (fun _ => ?_)
    exact Meets.pure (fun _ _ h _ => .inl h)
  refine Meets.bind (keeps_admitApplication _) ?_
  intro admitted
  cases admitted with
  | false => exact hgiveUp _
  | true =>
    refine Meets.bind (meets_readStore _) ?_
    intro found
    cases found with
    | none =>
      apply Meets.pure
      intro s _ h htag
      exact absurd h.2 ((env.wellFormed _).entry_ne_none (t := .classInstances) htag)
    | some instance_ =>
      cases hpublished : env.publishedClass instance_.classId with
      | exhausted reason =>
        simp only [hpublished]
        exact hgiveUp reason
      | ready surface =>
        simp only [hpublished]
        exact (meets_projectSurface application instance_ surface).weaken
          (fun _ h => Store.tag_of_entry h.2) (fun _ _ h _ => h)

theorem meets_projectClassOuter (application : TypeId) :
    Meets (frame env) (fun _ => True) (projectClassOuter env application)
      (fun _ s => HasTag env .classInstance application s → Projected application s) :=
  Meets.bind (meets_projectClassOuterDerived (.plain application))
    (fun _ => Meets.pure (fun _ _ h => h))

theorem keeps_projectClassOuter (application : TypeId) :
    Keeps (frame env) (projectClassOuter env application) :=
  (meets_projectClassOuter application).keeps

/-! ## §5 Evaluations -/

section Evaluations

variable {visit : TypeId → SemanticVisitPolicy → PlannerM I TypeId}
  (hvisit : ∀ ty policy, Keeps (frame env) (visit ty policy))

include hvisit

theorem keeps_visitDemandResult (result : TypeId) (policy : SemanticVisitPolicy) :
    Keeps (frame env) (visitDemandResult env visit result policy) := by
  cases policy with
  | recursive => exact discard (hvisit _ _)
  | demandOuterOnly | relationRootOuterOnly =>
    refine bind (keeps_tag _) ?_
    intro tag
    split
    · exact discard (keeps_projectClassOuter _)
    · exact discard (hvisit _ _)
    · exact discard (hvisit _ _)
    · exact pure _

/-- What is established before the result of an evaluation is visited still holds behind it. -/
theorem meets_visitResult {x : PlannerM I Unit} {P : Planner I → Prop} (hP : (frame env).Stable P)
    (hx : Meets (frame env) pre x (fun _ => P)) (result : TypeId) (policy : SemanticVisitPolicy) :
    Meets (frame env) pre
      (do
        x
        visitDemandResult env visit result policy
        pure result)
      (fun _ => P) := by
  refine Meets.lasting hP hx (fun _ => ?_)
  exact bind (keeps_visitDemandResult hvisit _ _) (fun _ => pure _)

theorem meets_settle (ty result : TypeId) (policy : SemanticVisitPolicy) :
    Meets (frame env) (fun _ => True) (settle env visit ty result policy)
      (fun _ => Evaluated ty) :=
  meets_visitResult hvisit stable_evaluated
    ((meets_recordEvaluation ty result).weaken (fun _ h => h) (fun _ _ h => .inr h)) result policy

theorem meets_settleExisting (ty result : TypeId) (policy : SemanticVisitPolicy) :
    Meets (frame env) (fun _ => True) (settleExisting env visit ty result policy)
      (fun _ => Evaluated ty) :=
  meets_visitResult hvisit stable_evaluated
    ((meets_recordExistingEvaluation (.plain ty) result).weaken (fun _ h => h)
      (fun _ _ h => .inr h)) result policy

omit hvisit in
theorem meets_giveUp (ty : TypeId) (reason : Exhaustion) :
    Meets (frame env) (fun _ => True) (giveUp ty reason) (fun _ => Evaluated ty) :=
  Meets.bind (meets_markFrontier ty reason) (fun _ => Meets.pure (fun _ _ h => .inl h))

theorem keeps_visitOperand (required : Option Bool) (operand : TypeId)
    (policy : SemanticVisitPolicy) :
    Keeps (frame env) (visitOperand visit required operand policy) := by
  cases required with
  | none => exact Meets.halt
  | some required =>
    cases required with
    | true => exact hvisit _ _
    | false => exact pure _

theorem keeps_visitObject (fuel : Nat) (object : TypeId) (policy : SemanticVisitPolicy) :
    Keeps (frame env) (visitObject env visit fuel object policy) := by
  refine bind (keeps_readStore _) ?_
  intro required
  cases required with
  | none => exact Meets.halt
  | some required =>
    cases required with
    | false => exact pure _
    | true =>
      refine bind (hvisit _ _) (fun object => ?_)
      refine bind (keeps_readStore _) (fun constraint => ?_)
      cases constraint with
      | none => exact pure _
      | some constraint => exact hvisit _ _

omit hvisit in
/-- An operand on the frontier takes the type with it. -/
theorem meets_normalizeOperand (ty operand : TypeId) {proceed : TypeId → PlannerM I TypeId}
    (hproceed : ∀ operand,
      Meets (frame env) (fun _ => True) (proceed operand) (fun _ => Evaluated ty)) :
    Meets (frame env) (fun _ => True) (normalizeOperand ty operand proceed)
      (fun _ => Evaluated ty) := by
  refine Meets.bind (read _) ?_
  intro normalized
  cases normalized with
  | ok operand => exact hproceed operand
  | error reason => exact meets_giveUp ty reason

theorem meets_evaluateDeferredIndexed (fuel : Nat) (ty : TypeId) (policy : SemanticVisitPolicy) :
    Meets (frame env) (HasTag env .deferredIndexedAccess ty)
      (evaluateDeferredIndexed env visit fuel ty policy) (fun _ => Evaluated ty) := by
  refine Meets.bind (meets_readStore _) ?_
  intro found
  cases found with
  | none =>
    apply Meets.pure
    intro s _ h
    exact absurd h.2 ((env.wellFormed _).entry_ne_none (t := .deferredIndexedAccesses) h.1)
  | some access =>
    refine Meets.anywhere ?_
    refine Meets.bind (keeps_intern _) (fun shallow => ?_)
    split_ifs
    · exact meets_settle hvisit ty shallow policy
    refine Meets.bind (keeps_visitObject hvisit _ _ _) (fun object => ?_)
    refine Meets.bind (keeps_readStore _) (fun required => ?_)
    refine Meets.bind (keeps_visitOperand hvisit _ _ _) (fun index => ?_)
    refine meets_normalizeOperand ty object (fun object => ?_)
    refine meets_normalizeOperand ty index (fun index => ?_)
    have hrebuild : Keeps (frame env) (rebuildAccess env ty access object index) := by
      unfold rebuildAccess
      split_ifs
      · exact pure _
      · exact keeps_intern _
    refine Meets.bind hrebuild (fun rebuilt => ?_)
    exact Meets.bind (keeps_intern _) (fun result => meets_settle hvisit ty result policy)

theorem meets_evaluateKeyof (ty : TypeId) (policy : SemanticVisitPolicy) :
    Meets (frame env) (HasTag env .keyof ty) (evaluateKeyof env visit ty policy)
      (fun _ => Evaluated ty) := by
  refine Meets.bind (meets_readStore _) ?_
  intro found
  cases found with
  | none =>
    apply Meets.pure
    intro s _ h
    exact absurd h.2 ((env.wellFormed _).inlinePayload_ne_none h.1)
  | some operand =>
    refine Meets.anywhere ?_
    refine Meets.bind (keeps_intern _) (fun shallow => ?_)
    split_ifs
    · exact meets_settle hvisit ty shallow policy
    refine Meets.bind (hvisit _ _) (fun operand => ?_)
    refine meets_normalizeOperand ty operand (fun operand => ?_)
    exact Meets.bind (keeps_intern _) (fun result => meets_settle hvisit ty result policy)

omit hvisit in
theorem keeps_runEvaluator (ty : TypeId) : Keeps (frame env) (runEvaluator env ty) := by
  intro s a s' hinv _ hrun
  unfold runEvaluator at hrun
  simp only [step, Except.ok.injEq, Prod.mk.injEq] at hrun
  obtain ⟨-, rfl⟩ := hrun
  have hgrows := (env.evaluatePlanned
    { ty := ty, nextTypeParam := s.nextTypeParam, durableMemo := s.durableEvaluationMemo
      workingMemo := s.workingEvaluationMemo, plan := s.plan } s.interner).grows
  refine ⟨?_, ⟨hgrows, rfl, rfl, ProjectionPlan.Grown.refl s.plan⟩, trivial⟩
  exact Consistent.step hinv ⟨hgrows, rfl, rfl, ProjectionPlan.Grown.refl s.plan⟩
    (fun _ hty => .inl hty) (hinv.plan.onStore (fun _ _ => hgrows.tag))

theorem meets_evaluateFresh (ty : TypeId) (policy : SemanticVisitPolicy) :
    Meets (frame env) (fun _ => True) (evaluateFresh env visit ty policy)
      (fun _ => Evaluated ty) := by
  refine Meets.bind (read _) (fun expansions => ?_)
  split_ifs
  · exact meets_giveUp ty _
  refine Meets.bind (keeps_update (fun _ => rfl) (fun _ => rfl) (fun _ => rfl) (fun _ => rfl)
    (fun _ => rfl)) (fun _ => ?_)
  refine Meets.bind (keeps_runEvaluator ty) (fun answer => ?_)
  split_ifs
  · exact meets_giveUp ty _
  · exact meets_giveUp ty _
  · cases answer.outcome with
    | ready result => exact meets_settleExisting hvisit ty result policy
    | exhausted reason => exact meets_giveUp ty reason

/-- **An evaluation gives its type up or evaluates it.** -/
theorem meets_evaluateExisting (ty : TypeId) (policy : SemanticVisitPolicy) :
    Meets (frame env) (fun _ => True) (evaluateExisting env visit ty policy)
      (fun _ => Evaluated ty) := by
  refine Meets.bind (read _) ?_
  intro memoized
  cases memoized with
  | some result => exact meets_settleExisting hvisit ty result policy
  | none =>
    refine Meets.bind (keeps_readStore _) (fun children => ?_)
    refine Meets.bind (forEach (fun child => discard (hvisit _ _)) children)
      (fun _ => ?_)
    exact meets_evaluateFresh hvisit ty policy

theorem keeps_evaluateExistingDerived (source : DerivedType) (policy : SemanticVisitPolicy) :
    Keeps (frame env) (evaluateExistingDerived env visit source policy) := by
  refine bind (meets_evaluateExisting hvisit _ _).keeps (fun result => ?_)
  refine bind (meets_recordExistingEvaluation _ _).keeps (fun _ => ?_)
  refine bind (read _) (fun normalized => ?_)
  cases normalized with
  | ok derived => exact pure _
  | error reason => exact pure _

theorem meets_evaluateDeclaredDerived (source : DerivedType) (policy : SemanticVisitPolicy) :
    Meets (frame env) (fun _ => True) (evaluateDeclaredDerived env visit source policy)
      (fun _ => Evaluated source.ty) := by
  refine Meets.bind (keeps_intern _) ?_
  intro materialized
  cases materialized with
  | none =>
    exact Meets.bind (meets_markFrontier _ _) (fun _ => Meets.pure (fun _ _ h => .inl h))
  | some outcome =>
    have houtcome : Keeps (frame env) (materialized source.ty outcome) := by
      cases outcome with
      | cycleClean result => exact pure _
      | cycleTainted result =>
        exact bind (keeps_markCycleTainted _) (fun _ => pure _)
    refine Meets.bind houtcome (fun derived => ?_)
    refine Meets.lasting stable_evaluated
      ((meets_recordDerivedEvaluation source derived).weaken (fun _ h => h)
        (fun _ _ h => .inr h)) (fun _ => ?_)
    exact bind (keeps_visitDemandResult hvisit _ _) (fun _ => pure _)

theorem meets_evaluateDeclared (ty : TypeId) (policy : SemanticVisitPolicy) :
    Meets (frame env) (fun _ => True) (evaluateDeclared env visit ty policy)
      (fun _ => Evaluated ty) :=
  Meets.bind (meets_evaluateDeclaredDerived hvisit (.plain ty) policy)
    (fun _ => Meets.pure (fun _ _ h => h))

end Evaluations

end Planner

end Typokat.Query
