import Mathlib.Data.List.Basic
import Mathlib.Tactic.Common

/-!
# Sequences of Checks

Validators that stop at the first error: what a success of the whole sequence says about
each of its steps, and when the whole sequence succeeds.
-/

namespace Typokat.Lib

variable {ε α β σ : Type}

/-- Stop with an error when a condition holds. -/
def rejectIf (condition : Prop) [Decidable condition] (error : ε) : Except ε Unit :=
  if condition then .error error else .ok ()

section Checks

variable {condition : Prop} [Decidable condition] {error : ε}

theorem rejectIf_eq_ok {result : Unit} : rejectIf condition error = .ok result ↔ ¬ condition := by
  unfold rejectIf
  split <;> simp_all

theorem rejectIf_pass (h : ¬ condition) : rejectIf condition error = .ok () :=
  if_neg h

end Checks

theorem toOption_eq_some {x : Except ε α} {a : α} : x.toOption = some a ↔ x = .ok a := by
  cases x <;> simp [Except.toOption]

/-- A sequence succeeds iff its parts do. -/
theorem bind_eq_ok {x : Except ε α} {f : α → Except ε β} {b : β} :
    x >>= f = .ok b ↔ ∃ a, x = .ok a ∧ f a = .ok b := by
  cases x with
  | error error =>
    refine ⟨fun h => ?_, ?_⟩
    · cases h
    · rintro ⟨_, h, _⟩
      cases h
  | ok a => exact ⟨fun h => ⟨a, rfl, h⟩, fun ⟨_, ha, h⟩ => by cases ha; exact h⟩

theorem map_eq_ok {x : Except ε α} {f : α → β} {b : β} :
    x.map f = .ok b ↔ ∃ a, x = .ok a ∧ f a = b := by
  cases x with
  | error error =>
    refine ⟨fun h => ?_, ?_⟩
    · cases h
    · rintro ⟨_, h, _⟩
      cases h
  | ok a =>
    refine ⟨fun h => ?_, ?_⟩
    · cases h
      exact ⟨a, rfl, rfl⟩
    · rintro ⟨_, ha, rfl⟩
      cases ha
      rfl

/-- A check in front of a sequence. -/
theorem rejectIf_bind_eq_ok {condition : Prop} [Decidable condition] {error : ε}
    {f : Unit → Except ε β} {b : β} :
    rejectIf condition error >>= f = .ok b ↔ ¬ condition ∧ f () = .ok b := by
  rw [bind_eq_ok]
  constructor
  · rintro ⟨⟨⟩, hcheck, h⟩
    exact ⟨rejectIf_eq_ok.mp hcheck, h⟩
  · rintro ⟨hcheck, h⟩
    exact ⟨(), rejectIf_pass hcheck, h⟩

theorem ok_bind (a : α) (f : α → Except ε β) : (Except.ok a >>= f) = f a := rfl

/-- A row by row conversion succeeds when each row does. -/
theorem mapM_ok {f : α → Except ε β} {g : α → β} {entries : List α}
    (h : ∀ entry ∈ entries, f entry = .ok (g entry)) :
    entries.mapM f = .ok (entries.map g) := by
  induction entries with
  | nil => rfl
  | cons entry entries ih =>
    obtain ⟨hentry, hrest⟩ := List.forall_mem_cons.mp h
    rw [List.mapM_cons, hentry, ih hrest]
    rfl

/-- A loop that succeeds keeps what each of its steps keeps; `done` are the entries behind. -/
theorem foldlM_ok {f : σ → α → Except ε σ} (inv : List α → σ → Prop) {entries : List α}
    {state final : σ} (hok : entries.foldlM f state = .ok final) (done : List α)
    (hstart : inv done state)
    (hstep : ∀ front entry back state next, entries = front ++ entry :: back →
      inv (done ++ front) state → f state entry = .ok next →
      inv (done ++ front ++ [entry]) next) : inv (done ++ entries) final := by
  induction entries generalizing state done with
  | nil =>
    cases hok
    rwa [List.append_nil]
  | cons entry entries ih =>
    obtain ⟨next, hfirst, hrest⟩ := bind_eq_ok.mp hok
    have hnext : inv (done ++ [entry]) next := by
      simpa using hstep [] entry entries state next rfl (by simpa using hstart) hfirst
    have hfinal := ih hrest (done ++ [entry]) hnext
      (fun front other back state after hsplit hinv hf => by
        have hafter := hstep (entry :: front) other back state after (by rw [hsplit]; rfl)
          (by simpa using hinv) hf
        simpa using hafter)
    simpa using hfinal

/-- A loop succeeds when each of its steps does under an invariant. -/
theorem foldlM_succeeds {f : σ → α → Except ε σ} (inv : List α → σ → Prop) (entries : List α)
    {state : σ} (done : List α) (hstart : inv done state)
    (hstep : ∀ front entry back state, entries = front ++ entry :: back →
      inv (done ++ front) state →
      ∃ next, f state entry = .ok next ∧ inv (done ++ front ++ [entry]) next) :
    ∃ final, entries.foldlM f state = .ok final ∧ inv (done ++ entries) final := by
  induction entries generalizing state done with
  | nil => exact ⟨state, rfl, by simpa using hstart⟩
  | cons entry entries ih =>
    obtain ⟨next, hfirst, hnext⟩ := hstep [] entry entries state rfl (by simpa using hstart)
    obtain ⟨final, hrest, hfinal⟩ := ih (done ++ [entry]) (by simpa using hnext)
      (fun front other back state hsplit hinv => by
        have hafter := hstep (entry :: front) other back state (by rw [hsplit]; rfl)
          (by simpa using hinv)
        simpa using hafter)
    refine ⟨final, ?_, by simpa using hfinal⟩
    rw [List.foldlM_cons, hfirst, ok_bind]
    exact hrest

end Typokat.Lib
