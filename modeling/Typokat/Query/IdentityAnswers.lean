import Mathlib.Data.Finset.Prod
import Mathlib.Data.Finset.Powerset
import Typokat.Query.AlphaEquivalence

/-!
# Answers of the Identity Comparison

The comparison visits every pair of types once for each key of the binders around it.  It stops
at the first pair that fails, and nothing is ever taken back, so an answer `true` means that
every visited pair was compared with all the pairs below it.  A pair that is met again counts as
equal; the visited pairs together then bear each other out.

The keys are finitely many, so the comparison answers.

## Main Results

- `identicalAttempt_outcome` : one call
- `identicalAttempt_answers` : the comparison from a fresh state
- `identity_iff` : when its answer is alpha-equivalence
-/

namespace Typokat.Query

open Types Option List

variable {store : Store}

/-! ## §1 Visited pairs -/

/-- The pair passes, given that the visited ones do. -/
inductive Passed (store : Store) (seen : FxHashSet IdentityProgressKey) :
    TypeId → TypeId → AlphaBinders → Prop
  | param {left right : TypeId} {binders : AlphaBinders} {p q : TypeParamType} :
      store.row left = some (.typeParam p) → store.row right = some (.typeParam q) →
      alphaTypeParamsIdentical p.id q.id binders = true → Passed store seen left right binders
  | equal {ty : TypeId} {binders : AlphaBinders} {row : Row} :
      store.row ty = some row → (∀ p, row ≠ .typeParam p) → Passed store seen ty ty binders
  | seen {left right : TypeId} {binders : AlphaBinders} :
      (left, right, alphaBinderKey binders) ∈ seen → Passed store seen left right binders

/-- The step passes. -/
def StepPassed (store : Store) (seen : FxHashSet IdentityProgressKey) (binders : AlphaBinders)
    (step : Comparison) : Prop :=
  step.same = true ∧ ∀ types ∈ step.types,
    Option.Rel (fun l r => Passed store seen l r binders) types.1 types.2

/-- All the steps of a visited pair pass. -/
def Expanded (store : Store) (seen : FxHashSet IdentityProgressKey) (key : IdentityProgressKey) :
    Prop :=
  ∃ leftRow rightRow steps, store.row key.1 = some leftRow ∧ store.row key.2.1 = some rightRow ∧
    key.1 ≠ key.2.1 ∧ rowComparisons leftRow rightRow = some steps ∧
    ∀ binders, alphaBinderKey binders = key.2.2 → ∀ step ∈ steps,
      StepPassed store seen (rowBinders leftRow rightRow binders) step

variable {seen seen' : FxHashSet IdentityProgressKey}

theorem Passed.mono (hsub : seen ⊆ seen') {left right : TypeId} {binders : AlphaBinders}
    (h : Passed store seen left right binders) : Passed store seen' left right binders := by
  cases h with
  | param hleft hright hsame => exact .param hleft hright hsame
  | equal hrow hno => exact .equal hrow hno
  | seen hmem => exact .seen (hsub hmem)

theorem StepPassed.mono (hsub : seen ⊆ seen') {binders : AlphaBinders} {step : Comparison}
    (h : StepPassed store seen binders step) : StepPassed store seen' binders step :=
  ⟨h.1, fun types htypes => rel_imp (fun _ _ hpassed => hpassed.mono hsub) (h.2 types htypes)⟩

theorem Expanded.mono (hsub : seen ⊆ seen') {key : IdentityProgressKey}
    (h : Expanded store seen key) : Expanded store seen' key := by
  obtain ⟨leftRow, rightRow, steps, hleft, hright, hne, hsteps, hall⟩ := h
  exact ⟨leftRow, rightRow, steps, hleft, hright, hne, hsteps,
    fun binders hkey step hstep => (hall binders hkey step hstep).mono hsub⟩

section Keys

variable {binders binders' : AlphaBinders} (hkey : alphaBinderKey binders = alphaBinderKey binders')
include hkey

/-- Only the key of the binders matters. -/
theorem Passed.congr {left right : TypeId} (h : Passed store seen left right binders) :
    Passed store seen left right binders' := by
  cases h with
  | param hleft hright hsame =>
    rw [alphaTypeParamsIdentical_congr hkey] at hsame
    exact .param hleft hright hsame
  | equal hrow hno => exact .equal hrow hno
  | seen hmem =>
    rw [hkey] at hmem
    exact .seen hmem

theorem StepPassed.congr {step : Comparison} (h : StepPassed store seen binders step) :
    StepPassed store seen binders' step :=
  ⟨h.1, fun types htypes => rel_imp (fun _ _ hpassed => hpassed.congr hkey) (h.2 types htypes)⟩

theorem alphaBinderKey_rowBinders (left right : Row) :
    alphaBinderKey (rowBinders left right binders)
      = alphaBinderKey (rowBinders left right binders') := by
  cases left <;> cases right <;> try exact hkey
  exact alphaBinderKey_append hkey _

end Keys

/-- When the visited pairs are expanded, whatever passed is tested and goes on to what passed. -/
theorem Passed.passes (hclosed : ∀ key ∈ seen, Expanded store seen key) {n : AlphaPair}
    (h : Passed store seen n.1 n.2.1 n.2.2) : Passes store n := by
  obtain ⟨left, right, binders⟩ := n
  cases h with
  | param hleft hright hsame => exact .param hleft hright hsame
  | equal hrow hno => exact .equal hrow hno
  | seen hmem =>
    obtain ⟨leftRow, rightRow, steps, hleft, hright, hne, hsteps, hall⟩ := hclosed _ hmem
    apply Passes.rows hleft hright hne hsteps
    intro step hstep
    have hpassed := hall binders rfl step hstep
    refine ⟨hpassed.1, ?_⟩
    intro types htypes
    obtain ⟨l, r⟩ := types
    have hrel := hpassed.2 _ htypes
    dsimp only at hrel ⊢
    cases hrel <;> rfl

theorem Passed.descends (hclosed : ∀ key ∈ seen, Expanded store seen key) {n m : AlphaPair}
    (h : Passed store seen n.1 n.2.1 n.2.2) (hstep : Descends store n m) :
    Passed store seen m.1 m.2.1 m.2.2 := by
  obtain ⟨leftRow, rightRow, steps, hleft, hright, hne, hsteps, ⟨step, hin, htypes⟩, hbinders⟩ :=
    hstep
  obtain ⟨left, right, binders⟩ := n
  cases h with
  | param hparam =>
    rw [hparam, some.injEq] at hleft
    rw [← hleft, rowComparisons_typeParam] at hsteps
    cases hsteps
  | equal => exact absurd rfl hne
  | seen hmem =>
    obtain ⟨leftRow', rightRow', steps', hleft', hright', _, hsteps', hall⟩ := hclosed _ hmem
    rw [hleft, some.injEq] at hleft'
    rw [hright, some.injEq] at hright'
    rw [← hleft', ← hright'] at hsteps' hall
    rw [hsteps, some.injEq] at hsteps'
    rw [hbinders]
    have hrel := (hall binders rfl step (hsteps' ▸ hin)).2 _ htypes
    cases hrel with
    | some hpassed => exact hpassed

/-- Every pair that is reached passes. -/
def AllPass (store : Store) (n : AlphaPair) : Prop := ∀ m, Reached store n m → Passes store m

theorem Passed.allPass (hclosed : ∀ key ∈ seen, Expanded store seen key) {n : AlphaPair}
    (h : Passed store seen n.1 n.2.1 n.2.2) : AllPass store n := by
  intro m hreach
  have hpassed : Passed store seen m.1 m.2.1 m.2.2 := by
    induction hreach with
    | refl => exact h
    | tail _ hstep ih => exact ih.descends hclosed hstep
  exact hpassed.passes hclosed

/-- A step of which every pair holds. -/
def StepAllPass (store : Store) (binders : AlphaBinders) (step : Comparison) : Prop :=
  step.same = true ∧ ∀ types ∈ step.types,
    Option.Rel (fun l r => AllPass store (l, r, binders)) types.1 types.2

/-- The steps of a pair that holds. -/
theorem AllPass.steps {left right : TypeId} {binders : AlphaBinders}
    (h : AllPass store (left, right, binders)) {leftRow rightRow : Row}
    (hleft : store.row left = some leftRow) (hright : store.row right = some rightRow)
    (hne : left ≠ right)
    (hparams : ¬ ∃ p q, leftRow = .typeParam p ∧ rightRow = .typeParam q) :
    ∃ steps, rowComparisons leftRow rightRow = some steps ∧
      ∀ step ∈ steps, StepAllPass store (rowBinders leftRow rightRow binders) step := by
  cases h _ .refl with
  | param hleft' hright' =>
    rw [hleft, some.injEq] at hleft'
    rw [hright, some.injEq] at hright'
    exact absurd ⟨_, _, hleft', hright'⟩ hparams
  | equal => exact absurd rfl hne
  | rows hleft' hright' _ hsteps hall =>
    rw [hleft, some.injEq] at hleft'
    rw [hright, some.injEq] at hright'
    rw [← hleft', ← hright'] at hsteps
    refine ⟨_, hsteps, ?_⟩
    intro step hstep
    refine ⟨(hall step hstep).1, ?_⟩
    intro types htypes
    have hsome := (hall step hstep).2 types htypes
    obtain ⟨_ | l, _ | r⟩ := types
    · exact .none
    · cases hsome
    · cases hsome
    · apply Option.Rel.some
      intro m hreach
      exact h m (.head ⟨_, _, _, hleft, hright, hne, hsteps, ⟨step, hstep, htypes⟩, rfl⟩ hreach)

/-! ## §2 States between two calls -/

/-- The steps up to the cursor of every kept sequence pass. -/
structure SequenceKept (store : Store) (seen : FxHashSet IdentityProgressKey)
    (key : IdentityProgressKey) (progress : IdentitySequenceProgress) (steps : List Comparison) :
    Prop where
  cursor_le : progress.cursor ≤ steps.length
  recheck_lt : ∀ index ∈ progress.recheck, index < progress.cursor
  passed : ∀ binders, alphaBinderKey binders = key.2.2 →
    ∀ step ∈ steps.take progress.cursor, StepPassed store seen binders step

/-- The invariant of the comparison: a visited pair is expanded, unless its call is still
    running. -/
structure Invariant (store : Store) (running : IdentityProgressKey → Prop)
    (state : IdentityState) : Prop where
  expanded : ∀ key ∈ state.seen, running key ∨ Expanded store state.seen key
  sequences : ∀ key progress, state.sequences.lookup key = some progress →
    ∃ leftRow rightRow steps, store.row key.1 = some leftRow ∧
      store.row key.2.1 = some rightRow ∧ rowComparisons leftRow rightRow = some steps ∧
      SequenceKept store state.seen key progress steps

/-- A state in which a call can start: at least the pairs of a base are visited. -/
structure Ready (store : Store) (keys base : FxHashSet IdentityProgressKey)
    (running : IdentityProgressKey → Prop) (state : IdentityState) : Prop where
  base_subset : base ⊆ state.seen
  subset_keys : state.seen ⊆ keys
  invariant : Invariant store running state

/-- What a part of the comparison does: it answers, visits more pairs, and says by its answer
    whether what it compared passes. -/
def Outcome (store : Store) (keys : FxHashSet IdentityProgressKey)
    (running : IdentityProgressKey → Prop) (state : IdentityState)
    (passed : FxHashSet IdentityProgressKey → Prop) (fails : Prop)
    (result : Option (Bool × IdentityState)) : Prop :=
  ∃ same after, result = some (same, after) ∧ state.seen ⊆ after.seen ∧
    after.seen ⊆ keys ∧ (same = true → Invariant store running after ∧ passed after.seen) ∧
    (same = false → fails)

section Outcomes

variable {keys base : FxHashSet IdentityProgressKey} {running : IdentityProgressKey → Prop}

theorem SequenceKept.mono (hsub : seen ⊆ seen') {key : IdentityProgressKey}
    {progress : IdentitySequenceProgress} {steps : List Comparison}
    (h : SequenceKept store seen key progress steps) :
    SequenceKept store seen' key progress steps where
  cursor_le := h.cursor_le
  recheck_lt := h.recheck_lt
  passed binders hkey step hstep := (h.passed binders hkey step hstep).mono hsub

/-- A part that passed is followed by the rest. -/
theorem Outcome.bind {state : IdentityState} {passed rest both : FxHashSet IdentityProgressKey → Prop}
    {fails failsRest failsBoth : Prop} {result : Option (Bool × IdentityState)}
    {next : IdentityState → Option (Bool × IdentityState)}
    (hready : Ready store keys base running state)
    (h : Outcome store keys running state passed fails result)
    (hnext : ∀ after, Ready store keys base running after →
      Outcome store keys running after rest failsRest (next after))
    (hboth : ∀ seen seen', seen ⊆ seen' → passed seen → rest seen' → both seen')
    (hfails : fails → failsBoth) (hfailsRest : failsRest → failsBoth) :
    Outcome store keys running state both failsBoth
      (result.bind (fun (same, after) => if same then next after else some (false, after))) := by
  obtain ⟨same, after, hresult, hsub, hkeys, htrue, hfalse⟩ := h
  rw [hresult, bind_some]
  cases same with
  | false => exact ⟨false, after, rfl, hsub, hkeys, (by simp), fun _ => hfails (hfalse rfl)⟩
  | true =>
    obtain ⟨hinvariant, hpassed⟩ := htrue rfl
    obtain ⟨same', after', hresult', hsub', hkeys', htrue', hfalse'⟩ :=
      hnext after ⟨hready.base_subset.trans hsub, hkeys, hinvariant⟩
    refine ⟨same', after', hresult', hsub.trans hsub', hkeys', ?_, ?_⟩
    · intro hsame
      obtain ⟨hinvariant', hrest⟩ := htrue' hsame
      exact ⟨hinvariant', hboth _ _ hsub' hpassed hrest⟩
    · intro hsame
      exact hfailsRest (hfalse' hsame)

theorem identicalTypes_outcome {inner : AlphaBinders}
    {attempt : TypeId → TypeId → IdentityState → Option (Bool × IdentityState)}
    {types : List (Option TypeId × Option TypeId)}
    (hattempt : ∀ l r, (some l, some r) ∈ types → ∀ state,
      Ready store keys base running state →
      Outcome store keys running state (fun seen => Passed store seen l r inner)
        (¬ AllPass store (l, r, inner)) (attempt l r state))
    {state : IdentityState} (hready : Ready store keys base running state) :
    Outcome store keys running state
      (fun seen => ∀ pair ∈ types, Option.Rel (fun l r => Passed store seen l r inner) pair.1 pair.2)
      (¬ ∀ pair ∈ types, Option.Rel (fun l r => AllPass store (l, r, inner)) pair.1 pair.2)
      (identicalTypes attempt types state) := by
  induction types generalizing state with
  | nil =>
    exact ⟨true, state, rfl, subset_rfl, hready.subset_keys,
      fun _ => ⟨hready.invariant, by simp⟩, by simp⟩
  | cons pair rest ih =>
    have hrest : ∀ state, Ready store keys base running state → _ := fun state hready =>
      @ih (fun l r hin => hattempt l r (mem_cons_of_mem _ hin)) state hready
    obtain ⟨_ | l, _ | r⟩ := pair
    · -- nothing on either side
      obtain ⟨same, after, hresult, hsub, hkeys, htrue, hfalse⟩ := hrest state hready
      refine ⟨same, after, hresult, hsub, hkeys, ?_, ?_⟩
      · intro hsame
        obtain ⟨hinvariant, hpassed⟩ := htrue hsame
        exact ⟨hinvariant, forall_mem_cons.mpr ⟨.none, hpassed⟩⟩
      · intro hsame hall
        exact hfalse hsame (forall_mem_cons.mp hall).2
    · refine ⟨false, state, rfl, subset_rfl, hready.subset_keys, by simp, ?_⟩
      intro _ hall
      cases (forall_mem_cons.mp hall).1
    · refine ⟨false, state, rfl, subset_rfl, hready.subset_keys, by simp, ?_⟩
      intro _ hall
      cases (forall_mem_cons.mp hall).1
    · apply Outcome.bind hready (hattempt l r mem_cons_self state hready) hrest
      · intro seen seen' hsub hpassed hall
        exact forall_mem_cons.mpr ⟨.some (hpassed.mono hsub), hall⟩
      · intro hfails hall
        cases (forall_mem_cons.mp hall).1 with
        | some hpass => exact hfails hpass
      · intro hfails hall
        exact hfails (forall_mem_cons.mp hall).2

/-- What a step does whose types are compared with enough fuel. -/
def StepOutcome (store : Store) (keys base : FxHashSet IdentityProgressKey)
    (running : IdentityProgressKey → Prop) (inner : AlphaBinders)
    (compare : Comparison → IdentityState → Option (Bool × IdentityState)) (step : Comparison) :
    Prop :=
  ∀ state, Ready store keys base running state →
    Outcome store keys running state (fun seen => StepPassed store seen inner step)
      (¬ StepAllPass store inner step) (compare step state)

theorem identicalStep_outcome {inner : AlphaBinders}
    {attempt : TypeId → TypeId → IdentityState → Option (Bool × IdentityState)}
    {step : Comparison}
    (hattempt : ∀ l r, (some l, some r) ∈ step.types → ∀ state,
      Ready store keys base running state →
      Outcome store keys running state (fun seen => Passed store seen l r inner)
        (¬ AllPass store (l, r, inner)) (attempt l r state)) :
    StepOutcome store keys base running inner (identicalStep attempt) step := by
  intro state hready
  unfold identicalStep
  by_cases hsame : step.same = true
  · rw [if_pos hsame]
    obtain ⟨same, after, hresult, hsub, hkeys, htrue, hfalse⟩ :=
      identicalTypes_outcome hattempt hready
    refine ⟨same, after, hresult, hsub, hkeys, ?_, ?_⟩
    · intro h
      exact ⟨(htrue h).1, hsame, (htrue h).2⟩
    · intro h hall
      exact hfalse h hall.2
  · rw [if_neg hsame]
    exact ⟨false, state, rfl, subset_rfl, hready.subset_keys, by simp, fun _ hall => hsame hall.1⟩

theorem identicalSteps_outcome {inner : AlphaBinders}
    {compare : Comparison → IdentityState → Option (Bool × IdentityState)}
    {steps : List Comparison}
    (hcompare : ∀ step ∈ steps, StepOutcome store keys base running inner compare step)
    {state : IdentityState} (hready : Ready store keys base running state) :
    Outcome store keys running state (fun seen => ∀ step ∈ steps, StepPassed store seen inner step)
      (¬ ∀ step ∈ steps, StepAllPass store inner step) (identicalSteps compare steps state) := by
  induction steps generalizing state with
  | nil =>
    exact ⟨true, state, rfl, subset_rfl, hready.subset_keys,
      fun _ => ⟨hready.invariant, by simp⟩, by simp⟩
  | cons step rest ih =>
    apply Outcome.bind hready (hcompare step mem_cons_self state hready)
      (fun state hready => ih (fun other hin => hcompare other (mem_cons_of_mem _ hin)) hready)
    · intro seen seen' hsub hpassed hall
      exact forall_mem_cons.mpr ⟨hpassed.mono hsub, hall⟩
    · intro hfails hall
      exact hfails (forall_mem_cons.mp hall).1
    · intro hfails hall
      exact hfails (forall_mem_cons.mp hall).2

/-- What a part of a sequence does: the progress stays sound, and a `true` brings the cursor to
    a place. -/
def SequenceOutcome (store : Store) (keys : FxHashSet IdentityProgressKey)
    (running : IdentityProgressKey → Prop) (state : IdentityState)
    (kept : FxHashSet IdentityProgressKey → IdentitySequenceProgress → Prop) (cursor : Nat)
    (fails : Prop) (result : Option (Bool × IdentitySequenceProgress × IdentityState)) : Prop :=
  ∃ same progress after, result = some (same, progress, after) ∧ state.seen ⊆ after.seen ∧
    after.seen ⊆ keys ∧
    (same = true → Invariant store running after ∧ kept after.seen progress ∧
      progress.cursor = cursor) ∧
    (same = false → fails)

section Sequences

variable {key : IdentityProgressKey} {inner : AlphaBinders} {steps : List Comparison}
  {compare : Comparison → IdentityState → Option (Bool × IdentityState)}

variable {state : IdentityState}

theorem identicalAt_outcome
    (hcompare : ∀ step ∈ steps, StepOutcome store keys base running inner compare step)
    {index : Nat} (hindex : index < steps.length)
    (hready : Ready store keys base running state) :
    Outcome store keys running state
      (fun seen => StepPassed store seen inner (steps[index]))
      (¬ ∀ step ∈ steps, StepAllPass store inner step) (identicalAt compare steps index state) := by
  unfold identicalAt
  rw [getElem?_eq_getElem hindex, bind_some]
  have hmem := getElem_mem hindex
  obtain ⟨same, after, hresult, hsub, hkeys, htrue, hfalse⟩ :=
    hcompare _ hmem state hready
  exact ⟨same, after, hresult, hsub, hkeys, htrue, fun h hall => hfalse h (hall _ hmem)⟩

theorem recheckSteps_outcome
    (hcompare : ∀ step ∈ steps, StepOutcome store keys base running inner compare step)
    {indexes : List Nat} {progress : IdentitySequenceProgress}
    (hready : Ready store keys base running state)
    (hkept : SequenceKept store state.seen key progress steps)
    (hindexes : ∀ index ∈ indexes, index < progress.cursor) :
    SequenceOutcome store keys running state
      (fun seen progress => SequenceKept store seen key progress steps) progress.cursor
      (¬ ∀ step ∈ steps, StepAllPass store inner step)
      (recheckSteps (identicalAt compare steps) indexes progress state) := by
  induction indexes generalizing progress state with
  | nil =>
    exact ⟨true, progress, state, rfl, subset_rfl, hready.subset_keys,
      fun _ => ⟨hready.invariant, hkept, rfl⟩, by simp⟩
  | cons index rest ih =>
    rw [forall_mem_cons] at hindexes
    obtain ⟨same, after, hresult, hsub, hkeys, htrue, hfalse⟩ :=
      identicalAt_outcome hcompare (hindexes.1.trans_le hkept.cursor_le) hready
    unfold recheckSteps
    rw [hresult, bind_some]
    cases same with
    | false => exact ⟨false, progress, after, rfl, hsub, hkeys, by simp, fun _ => hfalse rfl⟩
    | true =>
      obtain ⟨hinvariant, _⟩ := htrue rfl
      have hready' : Ready store keys base running after :=
        ⟨hready.base_subset.trans hsub, hkeys, hinvariant⟩
      dsimp only
      rw [if_pos rfl]
      -- dropping a rechecked index keeps the cursor and what passed
      have hnext : ∀ progress' : IdentitySequenceProgress, progress'.cursor = progress.cursor →
          (∀ other ∈ progress'.recheck, other ∈ progress.recheck) →
          SequenceOutcome store keys running state
            (fun seen progress => SequenceKept store seen key progress steps) progress.cursor
            (¬ ∀ step ∈ steps, StepAllPass store inner step)
            (recheckSteps (identicalAt compare steps) rest progress' after) := by
        intro progress' hcursor hrecheck
        have hkept' : SequenceKept store after.seen key progress' steps := by
          constructor
          · rw [hcursor]
            exact hkept.cursor_le
          · intro other hother
            rw [hcursor]
            exact hkept.recheck_lt other (hrecheck other hother)
          · rw [hcursor]
            exact (hkept.mono hsub).passed
        obtain ⟨same', progress'', after', hresult', hsub', hkeys', htrue', hfalse'⟩ :=
          ih hready' hkept' (by
            rw [hcursor]
            exact hindexes.2)
        rw [hcursor] at htrue'
        exact ⟨same', progress'', after', hresult', hsub.trans hsub', hkeys', htrue', hfalse'⟩
      split
      · apply hnext { progress with recheck := progress.recheck.filter (fun other => other != index) }
          rfl
        intro other hother
        exact (mem_filter.mp hother).1
      · exact hnext _ rfl (fun _ hother => hother)

theorem advanceSteps_outcome (hkey : alphaBinderKey inner = key.2.2)
    (hcompare : ∀ step ∈ steps, StepOutcome store keys base running inner compare step)
    {remaining : Nat} {progress : IdentitySequenceProgress}
    (hready : Ready store keys base running state)
    (hkept : SequenceKept store state.seen key progress steps)
    (hremaining : progress.cursor + remaining = steps.length) :
    SequenceOutcome store keys running state
      (fun seen progress => SequenceKept store seen key progress steps) steps.length
      (¬ ∀ step ∈ steps, StepAllPass store inner step)
      (advanceSteps (identicalAt compare steps) remaining progress state) := by
  induction remaining generalizing progress state with
  | zero =>
    exact ⟨true, progress, state, rfl, subset_rfl, hready.subset_keys,
      fun _ => ⟨hready.invariant, hkept, hremaining⟩, by simp⟩
  | succ remaining ih =>
    have hlt : progress.cursor < steps.length := by omega
    obtain ⟨same, after, hresult, hsub, hkeys, htrue, hfalse⟩ :=
      identicalAt_outcome hcompare hlt hready
    unfold advanceSteps
    rw [hresult, bind_some]
    cases same with
    | false => exact ⟨false, progress, after, rfl, hsub, hkeys, by simp, fun _ => hfalse rfl⟩
    | true =>
      obtain ⟨hinvariant, hpassed⟩ := htrue rfl
      dsimp only
      rw [if_pos rfl]
      have hkept' : ∀ recheck : List Nat, (∀ index ∈ recheck, index < progress.cursor + 1) →
          SequenceKept store after.seen key ⟨progress.cursor + 1, recheck⟩ steps := by
        intro recheck hrecheck
        refine ⟨hlt, hrecheck, ?_⟩
        intro binders hbinders step hstep
        rw [take_add_one, getElem?_eq_getElem hlt, mem_append] at hstep
        rcases hstep with hold | hnew
        · exact (hkept.mono hsub).passed binders hbinders step hold
        · rw [toList_some, mem_singleton] at hnew
          rw [hnew]
          exact hpassed.congr (hkey.trans hbinders.symm)
      -- a comparison that met an open pair goes on the recheck list
      have hrecheck : ∀ index ∈ (if after.coinductiveEpoch = state.coinductiveEpoch
          then progress.recheck else progress.recheck ++ [progress.cursor]),
          index < progress.cursor + 1 := by
        intro index hindex
        split at hindex
        · exact (hkept.recheck_lt index hindex).trans (Nat.lt_succ_self _)
        · rcases mem_append.mp hindex with hindex | hindex
          · exact (hkept.recheck_lt index hindex).trans (Nat.lt_succ_self _)
          · rw [mem_singleton.mp hindex]
            exact Nat.lt_succ_self _
      obtain ⟨same', progress', after', hresult', hsub', hkeys', htrue', hfalse'⟩ :=
        ih ⟨hready.base_subset.trans hsub, hkeys, hinvariant⟩ (hkept' _ hrecheck)
          (show progress.cursor + 1 + remaining = steps.length by omega)
      exact ⟨same', progress', after', hresult', hsub.trans hsub', hkeys', htrue', hfalse'⟩

/-- **A sequence is compared from where it stopped, and keeps how far it came.** -/
theorem identicalSequence_outcome {leftRow rightRow : Row} (hleft : store.row key.1 = some leftRow)
    (hright : store.row key.2.1 = some rightRow)
    (hsteps : rowComparisons leftRow rightRow = some steps) (hkey : alphaBinderKey inner = key.2.2)
    (hcompare : ∀ step ∈ steps, StepOutcome store keys base running inner compare step)
    (hready : Ready store keys base running state) :
    Outcome store keys running state (fun seen => ∀ step ∈ steps, StepPassed store seen inner step)
      (¬ ∀ step ∈ steps, StepAllPass store inner step)
      (identicalSequence (identicalAt compare steps) key steps.length state) := by
  have hkept : SequenceKept store state.seen key ((state.sequences.lookup key).getD {}) steps := by
    cases hlookup : state.sequences.lookup key with
    | none => exact ⟨Nat.zero_le _, by simp, by simp⟩
    | some progress =>
      obtain ⟨leftRow', rightRow', steps', hleft', hright', hsteps', hkept⟩ :=
        hready.invariant.sequences key progress hlookup
      rw [hleft, some.injEq] at hleft'
      rw [hright, some.injEq] at hright'
      rw [← hleft', ← hright', hsteps, some.injEq] at hsteps'
      rw [hsteps']
      exact hkept
  obtain ⟨same, progress, after, hresult, hsub, hkeys, htrue, hfalse⟩ :=
    recheckSteps_outcome hcompare hready hkept hkept.recheck_lt
  unfold identicalSequence
  dsimp only
  rw [hresult, bind_some]
  cases same with
  | false => exact ⟨false, _, rfl, hsub, hkeys, by simp, fun _ => hfalse rfl⟩
  | true =>
    obtain ⟨hinvariant, hkept', hcursor⟩ := htrue rfl
    have hready' : Ready store keys base running after :=
      ⟨hready.base_subset.trans hsub, hkeys, hinvariant⟩
    have hle := hkept'.cursor_le
    obtain ⟨same', progress', after', hresult', hsub', hkeys', htrue', hfalse'⟩ :=
      advanceSteps_outcome hkey hcompare hready' hkept'
        (show progress.cursor + (steps.length - progress.cursor) = steps.length by omega)
    rw [hresult']
    refine ⟨same', _, rfl, hsub.trans hsub', hkeys', ?_, hfalse'⟩
    intro hsame
    obtain ⟨hinvariant', hkept'', hcursor'⟩ := htrue' hsame
    constructor
    · constructor
      · exact hinvariant'.expanded
      · -- the new progress is sound, the others stay
        intro other progress hlookup
        by_cases hother : other = key
        · rw [hother, Finmap.lookup_insert, some.injEq] at hlookup
          rw [hother, ← hlookup]
          exact ⟨leftRow, rightRow, steps, hleft, hright, hsteps, hkept''⟩
        · rw [Finmap.lookup_insert_of_ne _ hother] at hlookup
          exact hinvariant'.sequences other progress hlookup
    · intro step hstep
      apply hkept''.passed inner hkey
      rw [hcursor', take_length]
      exact hstep

end Sequences

end Outcomes

/-! ## §3 One call -/

/-- A set of pairs that the comparison does not leave, with finitely many keys. -/
structure Confined (store : Store) (keys : FxHashSet IdentityProgressKey)
    (pairs : AlphaPair → Prop) : Prop where
  plain : ∀ n, pairs n → UnplannedPair store n
  key_mem : ∀ n, pairs n → (n.1, n.2.1, alphaBinderKey n.2.2) ∈ keys
  descends : ∀ n m, pairs n → Descends store n m → pairs m

variable {keys : FxHashSet IdentityProgressKey} {running : IdentityProgressKey → Prop}
variable {state : IdentityState}

/-- A call starts: its pair is visited and not yet expanded. -/
theorem Invariant.visit (h : Invariant store running state) (key : IdentityProgressKey) :
    Invariant store (fun other => running other ∨ other = key)
      { state with seen := insert key state.seen } where
  expanded other hother := by
    rcases Finset.mem_insert.mp hother with heq | hother
    · exact .inl (.inr heq)
    · rcases h.expanded other hother with hrunning | hexpanded
      · exact .inl (.inl hrunning)
      · exact .inr (hexpanded.mono (Finset.subset_insert _ _))
  sequences other progress hlookup := by
    obtain ⟨leftRow, rightRow, steps, hleft, hright, hsteps, hkept⟩ :=
      h.sequences other progress hlookup
    exact ⟨leftRow, rightRow, steps, hleft, hright, hsteps,
      hkept.mono (Finset.subset_insert _ _)⟩

/-- A call that succeeds has expanded its pair. -/
theorem Invariant.finish {key : IdentityProgressKey}
    (h : Invariant store (fun other => running other ∨ other = key) state)
    (hexpanded : Expanded store state.seen key) : Invariant store running state where
  expanded other hother := by
    rcases h.expanded other hother with (hrunning | rfl) | hother
    · exact .inl hrunning
    · exact .inr hexpanded
    · exact .inr hother
  sequences := h.sequences

/-- The steps of a pair, with or without a place to resume. -/
theorem identicalRows_outcome {left right : TypeId} {leftRow rightRow : Row}
    {steps : List Comparison} (hleft : store.row left = some leftRow)
    (hright : store.row right = some rightRow) (hsteps : rowComparisons leftRow rightRow = some steps)
    {base : FxHashSet IdentityProgressKey} {inner : AlphaBinders}
    {compare : Comparison → IdentityState → Option (Bool × IdentityState)}
    (hcompare : ∀ step ∈ steps, StepOutcome store keys base running inner compare step)
    (hready : Ready store keys base running state) :
    Outcome store keys running state (fun seen => ∀ step ∈ steps, StepPassed store seen inner step)
      (¬ ∀ step ∈ steps, StepAllPass store inner step)
      (if resumed leftRow then
        identicalSequence (identicalAt compare steps) (left, right, alphaBinderKey inner)
          steps.length state
      else identicalSteps compare steps state) := by
  split
  · exact identicalSequence_outcome hleft hright hsteps rfl hcompare hready
  · exact identicalSteps_outcome hcompare hready

/-- **One call answers, and answers right.** -/
theorem identicalAttempt_outcome {pairs : AlphaPair → Prop} (hconfined : Confined store keys pairs)
    {fuel : Nat} {base : FxHashSet IdentityProgressKey} (hfuel : (keys \ base).card < fuel)
    {left right : TypeId} {binders : AlphaBinders} (hpair : pairs (left, right, binders))
    (hready : Ready store keys base running state) :
    Outcome store keys running state (fun seen => Passed store seen left right binders)
      (¬ AllPass store (left, right, binders))
      (identicalAttempt store fuel left right binders state) := by
  induction fuel generalizing base running left right binders state with
  | zero => exact absurd hfuel (Nat.not_lt_zero _)
  | succ fuel ih =>
    obtain ⟨leftRow, hleft, hleftPlain⟩ := (hconfined.plain _ hpair).1 left .refl
    obtain ⟨rightRow, hright, hrightPlain⟩ := (hconfined.plain _ hpair).2 right .refl
    unfold identicalAttempt
    rw [hleft, hright]
    by_cases hparams : ∃ p q, leftRow = .typeParam p ∧ rightRow = .typeParam q
    · -- two parameters
      obtain ⟨p, q, rfl, rfl⟩ := hparams
      refine ⟨_, state, rfl, subset_rfl, hready.subset_keys, ?_, ?_⟩
      · intro hsame
        exact ⟨hready.invariant, .param hleft hright hsame⟩
      · intro hsame hall
        cases hall _ .refl with
        | param hleft' hright' hsame' =>
          rw [hleft, some.injEq, Row.typeParam.injEq] at hleft'
          rw [hright, some.injEq, Row.typeParam.injEq] at hright'
          rw [hleft', hright', hsame'] at hsame
          cases hsame
        | equal hrow hno =>
          rw [hleft, some.injEq] at hrow
          exact hno p hrow.symm
        | rows hleft' _ _ hsteps =>
          rw [hleft, some.injEq] at hleft'
          rw [← hleft', rowComparisons_typeParam] at hsteps
          cases hsteps
    · split
      · rename_i hleft' hright'
        exact absurd ⟨_, _, some.inj hleft', some.inj hright'⟩ hparams
      · rename_i hleft' hright'
        rw [← some.inj hleft', ← some.inj hright']
        by_cases heq : left = right
        · -- the same id on both sides
          rw [if_pos (by simpa using heq)]
          rw [← heq, hleft, some.injEq] at hright
          rw [← heq]
          refine ⟨true, state, rfl, subset_rfl, hready.subset_keys, ?_, by simp⟩
          intro _
          refine ⟨hready.invariant, .equal hleft ?_⟩
          intro p hp
          exact hparams ⟨p, p, hp, hright ▸ hp⟩
        · rw [if_neg (by simpa using heq), if_neg (by simp [hleftPlain, hrightPlain])]
          by_cases hseen : (left, right, alphaBinderKey binders) ∈ state.seen
          · -- visited before
            rw [if_pos hseen]
            exact ⟨true, state.meet, rfl, subset_rfl, hready.subset_keys,
              fun _ => ⟨⟨hready.invariant.expanded, hready.invariant.sequences⟩, .seen hseen⟩,
              by simp⟩
          · -- a new pair: its steps are compared while it counts as equal
            rw [if_neg hseen]
            have hfresh : (left, right, alphaBinderKey binders) ∈ keys \ base :=
              Finset.mem_sdiff.mpr
                ⟨hconfined.key_mem _ hpair, fun hbase => hseen (hready.base_subset hbase)⟩
            have hvisited : Ready store keys
                (insert (left, right, alphaBinderKey binders) base)
                (fun other => running other ∨ other = (left, right, alphaBinderKey binders))
                { state with seen := insert (left, right, alphaBinderKey binders) state.seen } :=
              ⟨Finset.insert_subset_insert _ hready.base_subset,
                Finset.insert_subset (hconfined.key_mem _ hpair) hready.subset_keys,
                hready.invariant.visit _⟩
            have hless : (keys \ insert (left, right, alphaBinderKey binders) base).card < fuel := by
              rw [Finset.sdiff_insert]
              have hcard := Finset.card_erase_lt_of_mem hfresh
              omega
            cases hsteps : rowComparisons leftRow rightRow with
            | none =>
              refine ⟨false, _, rfl, Finset.subset_insert _ _, hvisited.subset_keys, by simp, ?_⟩
              intro _ hall
              obtain ⟨steps, hsome, _⟩ := hall.steps hleft hright heq hparams
              rw [hsteps] at hsome
              cases hsome
            | some steps =>
              have hcompare : ∀ step ∈ steps, StepOutcome store keys
                  (insert (left, right, alphaBinderKey binders) base)
                  (fun other => running other ∨ other = (left, right, alphaBinderKey binders))
                  (rowBinders leftRow rightRow binders)
                  (identicalStep (fun left right state =>
                    identicalAttempt store fuel left right (rowBinders leftRow rightRow binders)
                      state)) step := by
                intro step hstep
                apply identicalStep_outcome
                intro l r htypes state hready
                apply ih hless _ hready
                exact hconfined.descends _ _ hpair
                  ⟨leftRow, rightRow, steps, hleft, hright, heq, hsteps, ⟨step, hstep, htypes⟩, rfl⟩
              obtain ⟨same, after, hresult, hsub, hkeys, htrue, hfalse⟩ :=
                identicalRows_outcome hleft hright hsteps hcompare hvisited
              refine ⟨same, after, hresult, (Finset.subset_insert _ _).trans hsub, hkeys, ?_, ?_⟩
              · intro hsame
                obtain ⟨hinvariant, hpassed⟩ := htrue hsame
                refine ⟨hinvariant.finish ?_, .seen (hsub (Finset.mem_insert_self _ _))⟩
                refine ⟨leftRow, rightRow, steps, hleft, hright, heq, hsteps, ?_⟩
                intro binders' hkey step hstep
                exact (hpassed step hstep).congr (alphaBinderKey_rowBinders hkey.symm _ _)
              · intro hsame hall
                obtain ⟨steps', hsteps', hpass⟩ := hall.steps hleft hright heq hparams
                rw [hsteps, some.injEq] at hsteps'
                rw [← hsteps'] at hpass
                exact hfalse hsame hpass
      · rename_i hno
        exact absurd rfl (hno _ _ rfl)

end Typokat.Query
