import Mathlib.Data.List.Forall2
import Mathlib.Tactic.Common

/-!
# Steps over a Threaded State

A fallible step is run for the elements of a list one after the other, each from the state
that the one before left behind.  What a step says about its element and result has to hold
in every later state.

## Main Results

- `mapThreaded_spec` : what each step established still holds in the last state
- `mapThreaded_total` : when every step returns
- `mapM_eq_some_iff` : the same without a state
-/

namespace Typokat.Lib

variable {α β σ : Type*}

/-- Run a step for every element and collect the results. -/
def mapThreaded (step : σ → α → Option (β × σ)) : σ → List α → Option (List β × σ)
  | s, [] => some ([], s)
  | s, x :: xs =>
    (step s x).bind (fun (y, s) =>
      (mapThreaded step s xs).map (fun (ys, s) => (y :: ys, s)))

section Spec

variable {step : σ → α → Option (β × σ)} {xs : List α}

theorem mapThreaded_cons {x : α} {s s' : σ} {ys : List β}
    (h : mapThreaded step s (x :: xs) = some (ys, s')) :
    ∃ y s₁ rest, step s x = some (y, s₁) ∧ mapThreaded step s₁ xs = some (rest, s') ∧
      ys = y :: rest := by
  unfold mapThreaded at h
  obtain ⟨⟨y, s₁⟩, hstep, hrest⟩ := Option.bind_eq_some_iff.mp h
  obtain ⟨⟨rest, s₂⟩, hmap, heq⟩ := Option.map_eq_some_iff.mp hrest
  simp only [Prod.mk.injEq] at heq
  obtain ⟨rfl, rfl⟩ := heq
  exact ⟨y, s₁, rest, hstep, hmap, rfl⟩

/-- **What each step established still holds in the last state.** -/
theorem mapThreaded_spec (inv : σ → Prop) (later : σ → σ → Prop) (about : α → β → σ → Prop)
    (hrefl : ∀ s, later s s)
    (htrans : ∀ s₁ s₂ s₃, later s₁ s₂ → later s₂ s₃ → later s₁ s₃)
    (hkeep : ∀ x y s s', inv s' → later s s' → about x y s → about x y s')
    (hstep : ∀ x ∈ xs, ∀ s y s', inv s → step s x = some (y, s') →
      inv s' ∧ later s s' ∧ about x y s')
    {s s' : σ} {ys : List β} (hinv : inv s) (h : mapThreaded step s xs = some (ys, s')) :
    inv s' ∧ later s s' ∧ List.Forall₂ (fun x y => about x y s') xs ys := by
  induction xs generalizing s ys with
  | nil =>
    cases h
    exact ⟨hinv, hrefl _, .nil⟩
  | cons x xs ih =>
    obtain ⟨y, s₁, rest, hfirst, hmap, rfl⟩ := mapThreaded_cons h
    obtain ⟨hinv₁, hlater, habout⟩ := hstep x (by simp) s y s₁ hinv hfirst
    obtain ⟨hinv', hlater', hall⟩ := ih
      (fun other hother => hstep other (List.mem_cons_of_mem _ hother)) hinv₁ hmap
    -- the later steps keep what the first one established
    exact ⟨hinv', htrans _ _ _ hlater hlater', .cons (hkeep x y s₁ s' hinv' hlater' habout) hall⟩

/-- The whole list is run when every step returns. -/
theorem mapThreaded_total (inv : σ → Prop)
    (hstep : ∀ x ∈ xs, ∀ s, inv s → ∃ y s', step s x = some (y, s') ∧ inv s')
    {s : σ} (hinv : inv s) : ∃ ys s', mapThreaded step s xs = some (ys, s') ∧ inv s' := by
  induction xs generalizing s with
  | nil => exact ⟨[], s, rfl, hinv⟩
  | cons x xs ih =>
    obtain ⟨y, s₁, hfirst, hinv₁⟩ := hstep x (by simp) s hinv
    obtain ⟨ys, s', hmap, hinv'⟩ := ih
      (fun other hother => hstep other (List.mem_cons_of_mem _ hother)) hinv₁
    refine ⟨y :: ys, s', ?_, hinv'⟩
    simp [mapThreaded, hfirst, hmap]

end Spec

section Pairs

variable {R : α → β → Prop} {xs : List α} {ys : List β}

theorem exists_left_of_forall₂ (h : List.Forall₂ R xs ys) {y : β} (hy : y ∈ ys) :
    ∃ x ∈ xs, R x y := by
  induction h with
  | nil => cases hy
  | cons hfirst _ ih =>
    rcases List.mem_cons.mp hy with rfl | hy
    · exact ⟨_, List.mem_cons_self, hfirst⟩
    · obtain ⟨x, hx, hrelated⟩ := ih hy
      exact ⟨x, List.mem_cons_of_mem _ hx, hrelated⟩

theorem exists_right_of_forall₂ (h : List.Forall₂ R xs ys) {x : α} (hx : x ∈ xs) :
    ∃ y ∈ ys, R x y :=
  exists_left_of_forall₂ h.flip hx

/-- Two lists related to a third one are related to each other. -/
theorem forall₂_join {γ : Type*} {S : α → γ → Prop} {T : γ → β → Prop} {zs : List γ}
    (hjoin : ∀ x y z, R x y → S x z → T z y) (hR : List.Forall₂ R xs ys) (hS : List.Forall₂ S xs zs) :
    List.Forall₂ T zs ys := by
  induction hR generalizing zs with
  | nil =>
    cases hS
    exact .nil
  | cons hfirst _ ih =>
    cases hS with
    | cons hfirst' hrest' => exact .cons (hjoin _ _ _ hfirst hfirst') (ih hrest')

end Pairs

/-- Every element has a value. -/
theorem mapM_eq_some_iff {f : α → Option β} {xs : List α} {ys : List β} :
    xs.mapM f = some ys ↔ List.Forall₂ (fun x y => f x = some y) xs ys := by
  induction xs generalizing ys with
  | nil => simp [eq_comm]
  | cons x xs ih =>
    simp only [List.mapM_cons, Option.bind_eq_bind, Option.bind_eq_some_iff, Option.pure_def,
      Option.some.injEq, List.forall₂_cons_left_iff, ih]
    constructor
    · intro h
      obtain ⟨y, hy, rest, hrest, heq⟩ := h
      exact ⟨y, rest, hy, hrest, heq.symm⟩
    · intro h
      obtain ⟨y, rest, hy, hrest, heq⟩ := h
      exact ⟨y, hy, rest, hrest, heq.symm⟩

theorem isSome_mapM (f : α → Option β) (xs : List α) :
    (xs.mapM f).isSome = xs.all (fun x => (f x).isSome) := by
  induction xs with
  | nil => rfl
  | cons x xs ih =>
    rw [List.mapM_cons, List.all_cons, ← ih]
    cases f x with
    | none => rfl
    | some y => cases xs.mapM f <;> rfl

end Typokat.Lib
