import Typokat.Lib.Snapshot
import Mathlib.Data.List.Induction

/-!
# Runs of Partial Step Functions

What holds along every run of a machine whose steps can fail: invariants, facts that are
never lost once they hold, and the step that established a fact.

## Main Results

- `run_induction` : induction over a run, the last step at the end
- `run_keeps` : a fact that every step keeps is kept by a run
- `run_origin` : a fact that does not hold at the start has a step that established it
-/

namespace Typokat.Lib

universe u v

section Runs

variable {S : Type v} {E : Type u} {step : E → S → Option S}

/-- A run can be cut anywhere. -/
theorem run_split {front back : List E} {start last : S}
    (h : run step (front ++ back) start = some last) :
    ∃ middle, run step front start = some middle ∧ run step back middle = some last := by
  rw [run_append] at h
  exact Option.bind_eq_some_iff.mp h

variable {events : List E}

theorem run_snoc {event : E} {start last : S} (h : run step (events ++ [event]) start = some last) :
    ∃ before, run step events start = some before ∧ step event before = some last := by
  rw [run_concat] at h
  exact Option.bind_eq_some_iff.mp h

theorem run_concat_of {event : E} {start before last : S}
    (hrun : run step events start = some before) (hstep : step event before = some last) :
    run step (events ++ [event]) start = some last := by
  rw [run_concat, hrun]
  exact hstep

/-- **Induction over a run.** A fact about the events so far and the state that they lead to
holds at the end if it holds at the start and every step extends it. -/
theorem run_induction {start : S} (P : List E → S → Prop) (hstart : P [] start)
    (hstep : ∀ events event before after, run step events start = some before →
      P events before → step event before = some after → P (events ++ [event]) after)
    {last : S} (h : run step events start = some last) : P events last := by
  induction events using List.reverseRecOn generalizing last with
  | nil =>
    cases h
    exact hstart
  | append_singleton events event ih =>
    obtain ⟨before, hrun, hlast⟩ := run_snoc h
    exact hstep events event before last hrun (ih hrun) hlast

/-- A fact that every step keeps is kept by every run. -/
theorem run_keeps (P : S → Prop)
    (hstep : ∀ event before after, P before → step event before = some after → P after)
    {start last : S} (hstart : P start)
    (h : run step events start = some last) : P last :=
  run_induction (fun _ state => P state) hstart
    (fun _ event before after _ hbefore => hstep event before after hbefore) h

/-- **Where a fact comes from.** A fact that holds at the end of a run and not at its start was
established by one of the steps. -/
theorem run_origin (P : S → Prop) {start last : S} (hstart : ¬ P start)
    (h : run step events start = some last) (hlast : P last) :
    ∃ front event back before after, events = front ++ event :: back ∧
      run step front start = some before ∧ step event before = some after ∧
      ¬ P before ∧ P after := by
  refine run_induction (fun events state => P state → ∃ front event back before after,
    events = front ++ event :: back ∧ run step front start = some before ∧
      step event before = some after ∧ ¬ P before ∧ P after)
    (fun h => absurd h hstart) ?_ h hlast
  intro events event before after hrun ih hstep hafter
  by_cases hbefore : P before
  · obtain ⟨front, earlier, back, state, next, heq, hrest⟩ := ih hbefore
    exact ⟨front, earlier, back ++ [event], state, next, by simp [heq], hrest⟩
  · exact ⟨events, event, [], before, after, rfl, hrun, hstep, hbefore, hafter⟩

end Runs

end Typokat.Lib
