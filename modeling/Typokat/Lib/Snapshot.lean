import Mathlib.Data.List.Basic

/-!
# Nested Transactions as Snapshots

The abstract machine of nested transactions: a current value together with the stack
of values that were current when each open transaction began.  A commit drops the top
snapshot, a rollback restores it.

## Main Results

- `Snapshot.run_balanced` : a balanced run gives the stack back as it found it
- `Snapshot.run_rollback` : a balanced run between a savepoint and its rollback leaves
  no trace
- `run_simulation` : a step simulation carries over to whole runs
-/

namespace Typokat.Lib

universe u v w

/-! ## §1 Events and runs -/

/-- What a client of a transactional state can do. -/
inductive TxEvent (W : Type u)
  | write (w : W)
  | savepoint
  | commit
  | rollback
  deriving DecidableEq, Repr

/-- Run a list of events through a partial step function. -/
def run {S : Type v} {E : Type u} (step : E → S → Option S) (events : List E) (s : S) :
    Option S :=
  events.foldlM (fun s e => step e s) s

section Run

variable {S : Type v} {E : Type u} (step : E → S → Option S)

@[simp] theorem run_nil (s : S) : run step [] s = some s := rfl

theorem run_cons (e : E) (events : List E) (s : S) :
    run step (e :: events) s = (step e s).bind (run step events) := rfl

theorem run_append (xs ys : List E) (s : S) :
    run step (xs ++ ys) s = (run step xs s).bind (run step ys) := by
  simp only [run, List.foldlM_append]
  rfl

theorem run_singleton (e : E) (s : S) : run step [e] s = step e s := by
  rw [run_cons]
  cases step e s <;> rfl

theorem run_concat (events : List E) (e : E) (s : S) :
    run step (events ++ [e]) s = (run step events s).bind (step e) := by
  rw [run_append]
  cases run step events s with
  | none => rfl
  | some t => exact run_singleton step e t

end Run

/-- **Simulation rule.** If one step keeps the relation between two machines whenever
    the guard allows it, so does every run whose steps the guard allows. -/
theorem run_simulation {S : Type v} {T : Type w} {E : Type u}
    (stepS : E → S → Option S) (stepT : E → T → Option T)
    (R : S → T → Prop) (guard : E → S → Prop)
    (hstep : ∀ e s t t', R s t → guard e s → stepT e t = some t' →
      ∃ s', stepS e s = some s' ∧ R s' t')
    (events : List E) :
    ∀ s t t', R s t →
      (∀ pre e, pre ++ [e] <+: events → ∀ s₁, run stepS pre s = some s₁ → guard e s₁) →
      run stepT events t = some t' → ∃ s', run stepS events s = some s' ∧ R s' t' := by
  induction events with
  | nil =>
    intro s t t' hR _ ht
    cases ht
    exact ⟨s, rfl, hR⟩
  | cons e events ih =>
    intro s t t' hR hguard ht
    rw [run_cons] at ht
    obtain ⟨t₁, ht₁, ht'⟩ := Option.bind_eq_some_iff.mp ht
    have hge : guard e s := hguard [] e (by simp) s rfl
    obtain ⟨s₁, hs₁, hR₁⟩ := hstep e s t t₁ hR hge ht₁
    obtain ⟨s', hs', hR'⟩ := ih s₁ t₁ t' hR₁ (by
      intro pre e' hpre s₂ hs₂
      refine hguard (e :: pre) e' ?_ s₂ ?_
      · simpa using hpre
      · rw [run_cons, hs₁]
        exact hs₂) ht'
    refine ⟨s', ?_, hR'⟩
    rw [run_cons, hs₁]
    exact hs'

/-! ## §2 The snapshot machine -/

/-- The current value and the snapshots of the open transactions, innermost first. -/
structure Snapshot (V : Type v) where
  current : V
  saved : List V

namespace Snapshot

variable {V : Type v} {W : Type u} (apply : W → V → V)

/-- One event of the snapshot machine; closing a transaction needs an open one. -/
def step : TxEvent W → Snapshot V → Option (Snapshot V)
  | .write w, m => some ⟨apply w m.current, m.saved⟩
  | .savepoint, m => some ⟨m.current, m.current :: m.saved⟩
  | .commit, ⟨c, _ :: saved⟩ => some ⟨c, saved⟩
  | .rollback, ⟨_, v :: saved⟩ => some ⟨v, saved⟩
  | .commit, ⟨_, []⟩ => none
  | .rollback, ⟨_, []⟩ => none

/-- Whether a run that starts with `depth` open transactions never closes one it does
    not have. -/
def properlyNested : Nat → List (TxEvent W) → Bool
  | _, [] => true
  | depth, .write _ :: events => properlyNested depth events
  | depth, .savepoint :: events => properlyNested (depth + 1) events
  | depth + 1, .commit :: events => properlyNested depth events
  | depth + 1, .rollback :: events => properlyNested depth events
  | 0, .commit :: _ => false
  | 0, .rollback :: _ => false

/-- Bodies that close exactly the transactions they open. -/
inductive Balanced : List (TxEvent W) → Prop
  | nil : Balanced []
  | write (w : W) {rest} : Balanced rest → Balanced (.write w :: rest)
  | commit {body rest} : Balanced body → Balanced rest →
      Balanced (.savepoint :: (body ++ .commit :: rest))
  | rollback {body rest} : Balanced body → Balanced rest →
      Balanced (.savepoint :: (body ++ .rollback :: rest))

/-- A properly nested run never gets stuck. -/
theorem run_of_properlyNested (events : List (TxEvent W)) :
    ∀ m : Snapshot V, properlyNested m.saved.length events = true →
      ∃ m', run (step apply) events m = some m' := by
  induction events with
  | nil =>
    intro m _
    exact ⟨m, rfl⟩
  | cons e events ih =>
    rintro ⟨c, saved⟩ h
    cases e with
    | write w => exact ih ⟨apply w c, saved⟩ h
    | savepoint => exact ih ⟨c, c :: saved⟩ h
    | commit =>
      cases saved with
      | nil => cases h
      | cons v saved => exact ih ⟨c, saved⟩ h
    | rollback =>
      cases saved with
      | nil => cases h
      | cons v saved => exact ih ⟨v, saved⟩ h

/-- **A balanced run gives the stack of snapshots back as it found it.** -/
theorem run_balanced {body : List (TxEvent W)} (h : Balanced body) :
    ∀ m : Snapshot V, ∃ c, run (step apply) body m = some ⟨c, m.saved⟩ := by
  induction h with
  | nil => exact fun m => ⟨m.current, rfl⟩
  | write w _ ih => exact fun m => ih ⟨apply w m.current, m.saved⟩
  | commit _ _ ihBody ihRest =>
    intro m
    obtain ⟨c, hc⟩ := ihBody ⟨m.current, m.current :: m.saved⟩
    obtain ⟨d, hd⟩ := ihRest ⟨c, m.saved⟩
    refine ⟨d, ?_⟩
    rw [run_cons]
    change run (step apply) _ ⟨m.current, m.current :: m.saved⟩ = _
    rw [run_append, hc]
    exact hd
  | rollback _ _ ihBody ihRest =>
    intro m
    obtain ⟨c, hc⟩ := ihBody ⟨m.current, m.current :: m.saved⟩
    obtain ⟨d, hd⟩ := ihRest m
    refine ⟨d, ?_⟩
    rw [run_cons]
    change run (step apply) _ ⟨m.current, m.current :: m.saved⟩ = _
    rw [run_append, hc]
    exact hd

/-- **A rolled-back transaction leaves no trace.** -/
theorem run_rollback {body : List (TxEvent W)} (h : Balanced body) (m : Snapshot V) :
    run (step apply) (.savepoint :: (body ++ [.rollback])) m = some m := by
  obtain ⟨c, hc⟩ := run_balanced apply h ⟨m.current, m.current :: m.saved⟩
  rw [run_cons]
  change run (step apply) (body ++ [.rollback]) ⟨m.current, m.current :: m.saved⟩ = some m
  rw [run_append, hc]
  rfl

/-- A commit keeps the current value. -/
theorem current_of_commit {m m' : Snapshot V} (h : step apply .commit m = some m') :
    m'.current = m.current := by
  obtain ⟨c, _ | ⟨v, saved⟩⟩ := m
  · cases h
  · cases h
    rfl

end Snapshot

end Typokat.Lib
