import Mathlib.Logic.Relation
import Typokat.Query.PlannerAnswers

/-!
# Runs of the Planner

A query runs a read-only engine against the plan, expands what the engine still needs, and tries
again.  The engine looks at types in an order of its own; whatever that order is, it never meets
the same need twice.

## Main Definitions

- `Planner.Reachable` : the planners of a query
- `attempt` : what a read-only engine reports to the loop
- `relationQuery` : the loops of `is_assignable`, `is_identical` and
  `overload_implementation_compatible`

## Main Results

- `Planner.Reachable.keeps` : every planner of a query is consistent and at rest
- `expansion_answers_demand` : **what was expanded is not asked for again**
-/

namespace Typokat.Query

open Types Lib Lib.Attempt ProjectionPlan List

/-! ## §1 Attempts -/

/-- A place where the engine consults the plan: a type that it relates, or a type whose surface
    it needs. -/
inductive Contact
  | semantic (ty : TypeId)
  | surface (ty : TypeId)
  deriving DecidableEq, Repr

/-- The channels that an attempt reports through. -/
structure QueryChannels where
  exhaustion : Option Exhaustion := none
  demand : Option RelationDemand := none
  apparentDemands : List RelationDemand := []

/-- What a contact leaves in the channels.  A type is normalized before its demand is looked at,
    the first demand and the first exhaustion stay, and a surface is only asked for while there
    is no demand. -/
def contact (plan : ProjectionPlan) (store : Store) (channels : QueryChannels) :
    Contact → QueryChannels
  | .semantic ty =>
    match plan.normalize ty with
    | .error reason => { channels with exhaustion := channels.exhaustion.or (some reason) }
    | .ok normalized =>
      { channels with demand := channels.demand.or (plan.relationDemand store normalized) }
  | .surface ty =>
    match plan.apparentSurface store ty with
    | .needs demand =>
      if channels.demand.isNone ∧ demand ∉ channels.apparentDemands then
        { channels with apparentDemands := channels.apparentDemands ++ [demand] }
      else channels
    | _ => channels

/-- `RelationAttempt` and `IdentityAttempt`. -/
inductive RelationAttempt (R : Type)
  | decided (outcome : PlannedOutcome R)
  | needs (demand : RelationDemand)
  | needsBatch (demands : List RelationDemand)

/-- The demands of an attempt. -/
def RelationAttempt.demands {R : Type} : RelationAttempt R → List RelationDemand
  | .decided _ => []
  | .needs demand => [demand]
  | .needsBatch demands => demands

/-- A read-only engine.  It carries a state from one attempt to the next, and it may choose its
    contacts by anything that it can see. -/
structure ReadOnlyEngine (I T R : Type) where
  contacts : T → Planner I → List Contact
  relation : T → Planner I → R
  next : T → Planner I → T

variable {I T R : Type} (env : PlannerEnvironment I) (engine : ReadOnlyEngine I T R)

/-- An attempt: exhaustion comes before the surfaces, and these before the demand. -/
def attempt (state : T) (planner : Planner I) : RelationAttempt R :=
  let channels := (engine.contacts state planner).foldl
    (contact planner.plan (env.store planner.interner)) {}
  match channels.exhaustion with
  | some reason => .decided (.exhausted reason)
  | none =>
    if channels.apparentDemands ≠ [] then .needsBatch channels.apparentDemands
    else
      match channels.demand with
      | some demand => .needs demand
      | none => .decided (.ready (engine.relation state planner))

namespace Planner

/-- The first rounds of a retry loop, and the demands that they report. -/
def retry (fuel : Nat) : Nat → T → PlannerM I (List RelationDemand)
  | 0, _ => pure []
  | rounds + 1, state => do
    let next ← Attempt.read (engine.next state)
    match ← Attempt.read (attempt env engine state) with
    | .decided _ => pure []
    | .needs demand => do
      expandRelationDemand env fuel demand
      let reported ← retry fuel rounds next
      pure (demand :: reported)
    | .needsBatch demands => do
      .forEach (expandRelationDemand env fuel) demands
      let reported ← retry fuel rounds next
      pure (demands ++ reported)

/-- A query: the roots are prepared, and then the loop runs.  `is_identical` prepares no roots,
    the other two both of theirs. -/
def relationQuery (fuel : Nat) (roots : List TypeId) (rounds : Nat) (state : T) :
    PlannerM I (List RelationDemand) := do
  prepareRelationRoots env fuel roots
  retry env engine fuel rounds state

/-! ## §2 Reachable planners -/

/-- A call of a planner from outside. -/
inductive Call
  | prepareRelationRoots (roots : List TypeId)
  | expandRelationDemand (demand : RelationDemand)
  | visit (root : TypeId)
  | planDemand (root : TypeId)

def Call.perform (fuel : Nat) : Call → PlannerM I Unit
  | .prepareRelationRoots roots => Planner.prepareRelationRoots env fuel roots
  | .expandRelationDemand demand => Planner.expandRelationDemand env fuel demand
  | .visit root => .discard (visitWithPolicy env fuel root .recursive)
  | .planDemand root => Planner.planDemand env fuel root

/-- A step of a query: a call that returns, or an engine that interns. -/
inductive Step : Planner I → Planner I → Prop
  | call {before after : Planner I} (fuel : Nat) (call : Call)
      (h : (call.perform env fuel).run before = .ok (.ok (), after)) : Step before after
  | intern {before : Planner I} (interner : I) (h : env.Grows before.interner interner) :
      Step before { before with interner := interner }

/-- The planners of a query. -/
def Reachable (planner : Planner I) : Prop :=
  ∃ interner projections evaluations nextTypeParam context,
    Relation.ReflTransGen (Step env)
      (Planner.new interner projections evaluations nextTypeParam context) planner

variable {env} {engine}

theorem keeps_prepareRelationRoot (fuel : Nat) (root : TypeId) :
    Keeps (frame env) (prepareRelationRoot env fuel root) := by
  refine Keeps.bind (keeps_tag root) (fun tag => ?_)
  split
  case h_1 => exact Keeps.discard (keeps_projectClassOuter _)
  case h_9 => exact Keeps.pure _
  all_goals exact keeps_visitRelationRoot _ _

theorem keeps_prepareRelationRoots (fuel : Nat) (roots : List TypeId) :
    Keeps (frame env) (prepareRelationRoots env fuel roots) :=
  Keeps.forEach (keeps_prepareRelationRoot fuel) roots

theorem keeps_planDemand (fuel : Nat) (root : TypeId) :
    Keeps (frame env) (planDemand env fuel root) := by
  refine Keeps.bind (keeps_tag root) (fun tag => ?_)
  split
  case h_1 => exact Keeps.discard (keeps_projectClassOuter _)
  case h_9 => exact Keeps.pure _
  all_goals exact Keeps.discard (keeps_visitWithPolicy _ _ _)

theorem Call.keeps (fuel : Nat) (call : Call) : Keeps (frame env) (call.perform env fuel) := by
  cases call with
  | prepareRelationRoots roots => exact keeps_prepareRelationRoots fuel roots
  | expandRelationDemand demand => exact keeps_expandRelationDemand fuel demand
  | visit root => exact Keeps.discard (keeps_visitWithPolicy _ _ _)
  | planDemand root => exact keeps_planDemand fuel root

/-- A step keeps the planner consistent and takes nothing back. -/
theorem Step.keeps {s s' : Planner I} (h : Step env s s') (hinv : Consistent env s) :
    Consistent env s' ∧ Later env s s' := by
  cases h with
  | call fuel call h =>
    obtain ⟨hinv', hlater, -⟩ := call.keeps fuel s () s' hinv trivial h
    exact ⟨hinv', hlater⟩
  | intern interner h =>
    have hlater : Later env s { s with interner := interner } :=
      ⟨h, rfl, rfl, ProjectionPlan.Grown.refl _⟩
    exact ⟨hinv.step hlater (fun _ hty => .inl hty) (hinv.plan.onStore (fun _ _ => h.tag)), hlater⟩

theorem keeps_of_steps {s s' : Planner I} (h : Relation.ReflTransGen (Step env) s s')
    (hinv : Consistent env s) : Consistent env s' ∧ Later env s s' := by
  induction h with
  | refl => exact ⟨hinv, Later.refl s⟩
  | tail _ hstep ih =>
    obtain ⟨hmiddle, hlater⟩ := ih
    obtain ⟨hinv', hlater'⟩ := hstep.keeps hmiddle
    exact ⟨hinv', hlater.trans hlater'⟩

theorem consistent_new (interner : I) (projections evaluations : FxHashMap TypeId TypeId)
    (nextTypeParam : Nat) (context : Option LibraryObjectRelationContext) :
    Consistent env (Planner.new interner projections evaluations nextTypeParam context) where
  memo := rfl
  visited := fun ty hty => absurd hty (Finset.notMem_empty ty)
  plan := {
    evaluated := fun _ hty => absurd hty Finmap.notMem_empty
    derived := fun _ hmem => absurd hmem Finmap.notMem_empty
    projected := fun _ hty => absurd hty Finmap.notMem_empty }

/-- No visit is under way. -/
def AtRest (planner : Planner I) : Prop := planner.visiting = ∅

theorem stable_atRest : (frame env).Stable AtRest := by
  intro s s' h hlater
  exact hlater.visiting.trans h

variable {s : Planner I}

/-- **Every planner of a query is consistent and at rest.** -/
theorem Reachable.keeps (h : Reachable env s) : Consistent env s ∧ AtRest s := by
  obtain ⟨interner, projections, evaluations, nextTypeParam, context, hsteps⟩ := h
  obtain ⟨hinv, hlater⟩ := keeps_of_steps hsteps
    (consistent_new interner projections evaluations nextTypeParam context)
  exact ⟨hinv, hlater.visiting⟩

/-! ## §3 What an attempt can need -/

/-- The plan makes the demand of a normalized type, or of a type whose surface is needed. -/
def Raised (plan : ProjectionPlan) (store : Store) (demand : RelationDemand) : Prop :=
  (∃ ty normalized, plan.normalize ty = .ok normalized ∧
      plan.relationDemand store normalized = some demand) ∨
    ∃ ty, plan.apparentSurface store ty = .needs demand

/-- What the channels hold was raised, and no surface twice. -/
structure ChannelsRaised (plan : ProjectionPlan) (store : Store) (channels : QueryChannels) :
    Prop where
  demand : ∀ demand, channels.demand = some demand → Raised plan store demand
  apparent : ∀ demand ∈ channels.apparentDemands, Raised plan store demand
  distinct : channels.apparentDemands.Nodup

section Channels

variable {plan : ProjectionPlan} {store : Store} {channels : QueryChannels}
  (h : ChannelsRaised plan store channels)
include h

theorem ChannelsRaised.contact (place : Contact) :
    ChannelsRaised plan store (contact plan store channels place) := by
  cases place with
  | semantic ty =>
    cases hnormalize : plan.normalize ty with
    | error reason =>
      simp only [Query.contact, hnormalize]
      exact ⟨h.demand, h.apparent, h.distinct⟩
    | ok normalized =>
      simp only [Query.contact, hnormalize]
      refine ⟨?_, h.apparent, h.distinct⟩
      intro demand hdemand
      rcases Option.or_eq_some_iff.mp hdemand with hold | ⟨-, hnew⟩
      · exact h.demand demand hold
      · exact .inl ⟨ty, normalized, hnormalize, hnew⟩
  | surface ty =>
    cases hsurface : plan.apparentSurface store ty with
    | needs demand =>
      simp only [Query.contact, hsurface]
      split_ifs with hnew
      · refine ⟨h.demand, ?_, ?_⟩
        · intro other hother
          rcases mem_append.mp hother with hold | hlast
          · exact h.apparent other hold
          · rw [mem_singleton.mp hlast]
            exact .inr ⟨ty, hsurface⟩
        · rw [nodup_append]
          refine ⟨h.distinct, nodup_singleton demand, ?_⟩
          intro a ha b hb heq
          rw [mem_singleton.mp hb] at heq
          exact hnew.2 (heq ▸ ha)
      · exact h
    | notApplicable | ready surface | unavailable => simpa only [Query.contact, hsurface] using h

theorem ChannelsRaised.foldl (places : List Contact) :
    ChannelsRaised plan store (places.foldl (Query.contact plan store) channels) := by
  induction places generalizing channels with
  | nil => exact h
  | cons place places ih => exact ih (h.contact place)

end Channels

/-- The demands of an attempt were raised, and none of them twice. -/
theorem raised_attempt (state : T) (planner : Planner I) :
    (∀ demand ∈ (attempt env engine state planner).demands,
      Raised planner.plan (env.store planner.interner) demand) ∧
    (attempt env engine state planner).demands.Nodup := by
  have hempty : ChannelsRaised planner.plan (env.store planner.interner) {} := by
    refine ⟨?_, ?_, nodup_nil⟩
    · intro demand hdemand
      cases hdemand
    · intro demand hdemand
      exact absurd hdemand not_mem_nil
  have h := hempty.foldl (engine.contacts state planner)
  unfold attempt
  dsimp only
  split
  · exact ⟨fun _ hdemand => absurd hdemand not_mem_nil, nodup_nil⟩
  · split_ifs
    · exact ⟨h.apparent, h.distinct⟩
    · split
      case h_1 demand hdemand =>
        refine ⟨?_, nodup_singleton demand⟩
        intro other hother
        rw [mem_singleton.mp hother]
        exact h.demand demand hdemand
      case h_2 => exact ⟨fun _ hdemand => absurd hdemand not_mem_nil, nodup_nil⟩

variable {demand : RelationDemand}

/-- A raised demand is one of the plan. -/
theorem Raised.asks (h : Raised s.plan (env.store s.interner) demand) : Asks env demand s :=
  h.imp (fun ⟨_, normalized, _, hdemand⟩ => ⟨normalized, hdemand⟩) id

/-- **What is answered is not raised.** -/
theorem Raised.not_fulfilled (h : Raised s.plan (env.store s.interner) demand) :
    ¬ Fulfilled env demand s := by
  intro hfulfilled
  rcases h with ⟨ty, normalized, hnormalize, hdemand⟩ | ⟨ty, hsurface⟩
  · have hsettled : Settled env normalized s := by
      rcases demand_of_relationDemand hdemand with rfl | rfl
      · exact hfulfilled
      · exact hfulfilled
    rcases hsettled.2 with hfrontier | hnone
    · exact notMem_frontier_of_normalize hnormalize hfrontier
    · rw [hnone] at hdemand
      cases hdemand
  · obtain ⟨rfl, hsurfaced⟩ := needs_of_apparentSurface hsurface
    have htrue : s.plan.surfaced ty = true := hfulfilled
    rw [hsurfaced] at htrue
    cases htrue

/-! ## §4 Retry loops -/

/-- A round that expands demands which are new, before rounds that report new ones. -/
theorem meets_round {done demands : List RelationDemand} {expand : PlannerM I Unit}
    {rest : PlannerM I (List RelationDemand)}
    (hexpand : Meets (frame env) (fun s => ∀ demand ∈ demands, Answerable env demand s) expand
      (fun _ s => ∀ demand ∈ demands, Fulfilled env demand s))
    (hrest : Meets (frame env)
      (fun s => AtRest s ∧ ∀ demand ∈ done ++ demands, Fulfilled env demand s) rest
      (fun reported _ => reported.Nodup ∧ ∀ demand ∈ reported, demand ∉ done ++ demands))
    (hdistinct : demands.Nodup) (hnew : ∀ demand ∈ demands, demand ∉ done) :
    Meets (frame env)
      (fun s => (AtRest s ∧ ∀ demand ∈ done, Fulfilled env demand s) ∧
        ∀ demand ∈ demands, Answerable env demand s)
      (do
        expand
        let reported ← rest
        pure (demands ++ reported))
      (fun reported _ => reported.Nodup ∧ ∀ demand ∈ reported, demand ∉ done) := by
  have hstable : (frame env).Stable
      (fun s => AtRest s ∧ ∀ demand ∈ done, Fulfilled env demand s) := by
    apply stable_atRest.and
    intro s s' h hlater demand hdemand
    exact stable_fulfilled demand s s' (h demand hdemand) hlater
  have hfirst := (Meets.carry hstable hexpand).weaken (fun s (h : (AtRest s ∧
    ∀ demand ∈ done, Fulfilled env demand s) ∧ ∀ demand ∈ demands, Answerable env demand s) =>
      ⟨h.2, h.1⟩) (fun _ _ h => h)
  refine Meets.bind hfirst (fun _ => Meets.bind (hrest.weaken ?_ (fun _ _ h => h)) ?_)
  · rintro s ⟨hdemands, hrest, hdone⟩
    refine ⟨hrest, ?_⟩
    intro demand hdemand
    rcases mem_append.mp hdemand with hold | hnew
    · exact hdone demand hold
    · exact hdemands demand hnew
  · intro reported
    apply Meets.pure
    rintro s - ⟨hreported, hdisjoint⟩
    refine ⟨?_, ?_⟩
    · rw [nodup_append]
      refine ⟨hdistinct, hreported, ?_⟩
      intro a ha b hb heq
      exact hdisjoint b hb (mem_append_right _ (heq ▸ ha))
    · intro demand hdemand
      rcases mem_append.mp hdemand with hfront | hback
      · exact hnew demand hfront
      · exact fun hmem => hdisjoint demand hback (mem_append_left _ hmem)

/-- **A retry loop only reports demands that were not answered before**, each of them once. -/
theorem meets_retry (fuel rounds : Nat) (state : T) (done : List RelationDemand) :
    Meets (frame env) (fun s => AtRest s ∧ ∀ demand ∈ done, Fulfilled env demand s)
      (retry env engine fuel rounds state)
      (fun reported _ => reported.Nodup ∧ ∀ demand ∈ reported, demand ∉ done) := by
  induction rounds generalizing state done with
  | zero =>
    exact Meets.pure (fun _ _ _ =>
      ⟨nodup_nil, fun _ hdemand => absurd hdemand not_mem_nil⟩)
  | succ rounds ih =>
    have hnext : Meets (frame env) (fun s => AtRest s ∧ ∀ demand ∈ done, Fulfilled env demand s)
        (.read (engine.next state) : PlannerM I T)
        (fun _ s => AtRest s ∧ ∀ demand ∈ done, Fulfilled env demand s) :=
      Meets.read (fun _ _ h => h)
    have hattempt : Meets (frame env)
        (fun s => AtRest s ∧ ∀ demand ∈ done, Fulfilled env demand s)
        (.read (attempt env engine state) : PlannerM I (RelationAttempt R))
        (fun result s => ((AtRest s ∧ ∀ demand ∈ done, Fulfilled env demand s) ∧
            ∀ demand ∈ result.demands, Answerable env demand s) ∧
          result.demands.Nodup ∧ ∀ demand ∈ result.demands, demand ∉ done) := by
      apply Meets.read
      intro s _ h
      -- an attempt asks only for what is not fulfilled yet
      obtain ⟨hraised, hdistinct⟩ := @raised_attempt _ _ _ env engine state s
      refine ⟨⟨h, ?_⟩, hdistinct, ?_⟩
      · intro demand hdemand
        exact (hraised demand hdemand).asks.answerable h.1
      · intro demand hdemand hdone
        exact (hraised demand hdemand).not_fulfilled (h.2 demand hdone)
    refine Meets.bind hnext (fun next => Meets.bind hattempt (fun result => ?_))
    refine Meets.assuming ?_
    rintro ⟨hdistinct, hnew⟩
    cases result with
    | decided outcome =>
      exact Meets.pure (fun _ _ _ =>
        ⟨nodup_nil, fun _ hdemand => absurd hdemand not_mem_nil⟩)
    | needs demand =>
      have hexpand : Meets (frame env) (fun s => ∀ d ∈ [demand], Answerable env d s)
          (expandRelationDemand env fuel demand) (fun _ s => ∀ d ∈ [demand], Fulfilled env d s) :=
        (answers_expandRelationDemand fuel demand).weaken
          (fun _ h => h demand (mem_singleton_self demand))
          (fun _ _ h d hd => by rwa [mem_singleton.mp hd])
      exact meets_round hexpand (ih next (done ++ [demand])) hdistinct hnew
    | needsBatch demands =>
      have hexpand : Meets (frame env) (fun s => ∀ d ∈ demands, Answerable env d s)
          (.forEach (expandRelationDemand env fuel) demands)
          (fun _ s => ∀ d ∈ demands, Fulfilled env d s) :=
        Meets.forEach stable_answerable stable_fulfilled (answers_expandRelationDemand fuel)
          demands
      exact meets_round hexpand (ih next (done ++ demands)) hdistinct hnew

/-- **A query never reports a demand twice.** -/
theorem nodup_relationQuery {s s' : Planner I} (hreach : Reachable env s) {fuel : Nat}
    {roots : List TypeId} {rounds : Nat} {state : T} {reports : List RelationDemand}
    (hrun : (relationQuery env engine fuel roots rounds state).run s = .ok (.ok reports, s')) :
    reports.Nodup := by
  obtain ⟨hinv, hrest⟩ := hreach.keeps
  have hroots : Meets (frame env) AtRest (prepareRelationRoots env fuel roots)
      (fun _ => AtRest) := (keeps_prepareRelationRoots fuel roots).stable stable_atRest
  have hretry : Meets (frame env) AtRest (retry env engine fuel rounds state)
      (fun reported _ => reported.Nodup) :=
    (meets_retry fuel rounds state []).weaken
      (fun _ h => ⟨h, fun _ hdemand => absurd hdemand not_mem_nil⟩) (fun _ _ h => h.1)
  exact (Meets.bind hroots (fun _ => hretry) s reports s' hinv hrest hrun).2.2

/-! ## §5 The answer to a demand -/

/-- Of what the type normalizes to, nothing is asked for that is about the type; or it is given
    up, for a reason of the frontier. -/
def NoLongerAsked (plan : ProjectionPlan) (asks : TypeId → RelationDemand → Prop) (ty : TypeId) :
    Prop :=
  (∃ reason, plan.normalize ty = .error reason ∧ ∃ x, plan.frontier.lookup x = some reason) ∨
    ∃ normalized, plan.normalize ty = .ok normalized ∧
      ∀ demand, asks normalized demand → demand.ty ≠ ty

/-- A settled type is no longer asked for. -/
theorem Settled.noLongerAsked {ty : TypeId} (h : Settled env ty s) :
    NoLongerAsked s.plan
      (fun x demand => s.plan.relationDemand (env.store s.interner) x = some demand) ty :=
  ProjectionPlan.Answered.normalize h.2

/-- A type with an answer about its surface is no longer asked for one. -/
theorem noLongerAsked_of_surfaced {ty : TypeId} (h : s.plan.surfaced ty = true) :
    NoLongerAsked s.plan
      (fun x demand => s.plan.apparentSurface (env.store s.interner) x = .needs demand) ty := by
  cases hnormalize : s.plan.normalize ty with
  | error reason => exact .inl ⟨reason, hnormalize, follow_error hnormalize⟩
  | ok normalized =>
    refine .inr ⟨normalized, hnormalize, ?_⟩
    intro demand hdemand hty
    obtain ⟨rfl, hsurfaced⟩ := needs_of_apparentSurface hdemand
    have heq : normalized = ty := hty
    subst heq
    rw [h] at hsurfaced
    cases hsurfaced

/-- An expansion answers its demand, and no later step takes the answer back. -/
theorem fulfilled_of_expansion {s s' last : Planner I} (hreach : Reachable env s)
    (hasks : Asks env demand s) {fuel : Nat}
    (hrun : (expandRelationDemand env fuel demand).run s = .ok (.ok (), s'))
    (hlast : Relation.ReflTransGen (Step env) s' last) : Fulfilled env demand last := by
  obtain ⟨hinv, hrest⟩ := hreach.keeps
  obtain ⟨hinv', -, hfulfilled⟩ := answers_expandRelationDemand fuel demand s () s' hinv
    (hasks.answerable hrest) hrun
  exact stable_fulfilled demand s' last hfulfilled (keeps_of_steps hlast hinv').2

end Planner

open Planner in
/-- **What was expanded is not asked for again**, neither right after the expansion nor at any
    later point of the query, and so no query reports a demand twice. -/
theorem expansion_answers_demand (env : PlannerEnvironment I) (engine : ReadOnlyEngine I T R)
    {s : Planner I} (hreach : Reachable env s) :
    (∀ ty demand fuel s',
      s.plan.relationDemand (env.store s.interner) ty = some demand →
      (expandRelationDemand env fuel demand).run s = .ok (.ok (), s') →
      ∀ last, Relation.ReflTransGen (Step env) s' last →
        NoLongerAsked last.plan
          (fun x d => last.plan.relationDemand (env.store last.interner) x = some d) ty) ∧
    (∀ ty demand fuel s',
      s.plan.apparentSurface (env.store s.interner) ty = .needs demand →
      (expandRelationDemand env fuel demand).run s = .ok (.ok (), s') →
      ∀ last, Relation.ReflTransGen (Step env) s' last →
        NoLongerAsked last.plan
          (fun x d => last.plan.apparentSurface (env.store last.interner) x = .needs d) ty) ∧
    ∀ roots fuel rounds state reports s',
      (relationQuery env engine fuel roots rounds state).run s = .ok (.ok reports, s') →
      reports.Nodup := by
  refine ⟨?_, ?_, ?_⟩
  · intro ty demand fuel s' hdemand hrun last hlast
    have hfulfilled := fulfilled_of_expansion hreach (.inl ⟨ty, hdemand⟩) hrun hlast
    rcases demand_of_relationDemand hdemand with rfl | rfl
    · exact Settled.noLongerAsked hfulfilled
    · exact Settled.noLongerAsked hfulfilled
  · intro ty demand fuel s' hdemand hrun last hlast
    have hfulfilled := fulfilled_of_expansion hreach (.inr ⟨ty, hdemand⟩) hrun hlast
    obtain ⟨rfl, -⟩ := needs_of_apparentSurface hdemand
    exact noLongerAsked_of_surfaced hfulfilled
  · intro roots fuel rounds state reports s' hrun
    exact nodup_relationQuery hreach hrun

/-! ## §6 A small query -/

/-- An empty object, an application of class `0` without arguments, and an array of the object. -/
def smallStore : Store :=
  (((Store.new.pushObject {} .empty).2.pushClassInstance ⟨0, []⟩ .empty).2.pushArray 0 .empty).2

theorem wellFormed_smallStore : smallStore.WellFormed := by
  have hobject := (@Store.appended_pushEntry _ .objects ({} : ObjectType) .empty
    Store.wellFormed_new).wellFormed
  have hinstance := (@Store.appended_pushEntry _ .classInstances (⟨0, []⟩ : ClassInstanceType)
    .empty hobject).wellFormed
  exact (@Store.appended_pushEntry _ .arrays (0 : TypeId) .empty hinstance).wellFormed

/-- An interner that holds the small store. -/
def smallView : InternerView Unit := ⟨fun _ => smallStore, fun _ => wellFormed_smallStore⟩

/-- An operation that finds its answer in the arena. -/
def found {A : Type} (result : A) (interner : Unit) : Interned smallView interner A :=
  ⟨result, interner, InternerView.Grows.refl _⟩

/-- Class `0` has no parameters, and its instances are the empty object.  No operation has
    anything new to intern. -/
def smallEnvironment : PlannerEnvironment Unit where
  toInternerView := smallView
  publishedClass _ := .ready ⟨0, [], 0, 0, none⟩
  applicationOccurrenceNode ty := found ⟨ty, some 0⟩
  derivationChild _ _ _ argument := .plain argument
  deriveSubstitutionResult _ result _ := found (.plain result)
  substituteDerivedWithOutcome template _ := found (.cycleClean (.plain template))
  substituteWithOutcome template _ := found (.cycleClean template)
  materializeDeclaredDerived _ := found none
  resolveDeferredOuterLayer ty := found ty
  resolveKeyofOuterLayer operand := found operand
  internDeferredIndexedAccess object _ := found object
  internObject _ := found 0
  classifyNativeSourceSurface ty := found (if ty = 2 then some (.array false 0 0) else none)
  evaluatePlanned request :=
    found ⟨.ready request.ty, false, false, request.nextTypeParam, request.workingMemo⟩

/-- Every surface of the library is the empty object. -/
def smallPlanner : Planner Unit :=
  Planner.new () ∅ ∅ 0 (some ⟨0, ⟨0, 0⟩, ⟨0, 0⟩, 0, 0, 0, 0⟩)

/-- An engine that relates the application, and needs the surface of the array. -/
def smallEngine : ReadOnlyEngine Unit Unit Bool where
  contacts _ _ := [.semantic 1, .surface 2]
  relation _ _ := true
  next _ _ := ()

open Planner in
/-- The small query: both demands are answered, and the loop reports each of them once. -/
theorem expansion_answers_demand_small :
    (∃ s', (expandRelationDemand smallEnvironment 1 (.classProjection 1)).run smallPlanner =
        .ok (.ok (), s') ∧
      NoLongerAsked s'.plan
        (fun x d => s'.plan.relationDemand smallStore x = some d) 1) ∧
    (∃ s', (expandRelationDemand smallEnvironment 1 (.apparentSurface 2)).run smallPlanner =
        .ok (.ok (), s') ∧
      NoLongerAsked s'.plan
        (fun x d => s'.plan.apparentSurface smallStore x = .needs d) 2) ∧
    ∃ s', (relationQuery smallEnvironment smallEngine 1 [] 3 ()).run smallPlanner =
        .ok (.ok [.classProjection 1, .apparentSurface 2], s') ∧
      [RelationDemand.classProjection 1, .apparentSurface 2].Nodup := by
  have hreach : Reachable smallEnvironment smallPlanner :=
    ⟨(), ∅, ∅, 0, some ⟨0, ⟨0, 0⟩, ⟨0, 0⟩, 0, 0, 0, 0⟩, .refl⟩
  obtain ⟨hclass, hsurface, hquery⟩ :=
    expansion_answers_demand smallEnvironment smallEngine hreach
  refine ⟨⟨_, rfl, ?_⟩, ⟨_, rfl, ?_⟩, ⟨_, rfl, ?_⟩⟩
  · exact hclass 1 (.classProjection 1) 1 _ rfl rfl _ .refl
  · exact hsurface 2 (.apparentSurface 2) 1 _ rfl rfl _ .refl
  · exact hquery [] 1 3 () _ _ rfl

end Typokat.Query
