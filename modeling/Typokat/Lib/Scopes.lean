import Mathlib.Data.List.Basic
import Mathlib.Tactic.Common

/-!
# Stacks of Scopes

A stack of scopes with the innermost one first.  A name belongs to the innermost scope that binds
it; reading and updating it leave the scopes in front of that one alone.

## Main Results

- `find?_update` : the updated scope is the one that is found afterwards
- `map_update` : what the update of a scope keeps, the update of the stack keeps
- `update_append` : a name is updated in the scopes on top, if one of them binds it
-/

namespace Typokat.Lib.Scopes

open List

variable {S A : Type} {binds : S → Bool} {f : S → S}

/-- Update the innermost scope that binds. -/
def update (binds : S → Bool) (f : S → S) : List S → List S
  | [] => []
  | scope :: outer => if binds scope then f scope :: outer else scope :: update binds f outer

/-- The updated scope is found afterwards. -/
theorem find?_update (hbinds : ∀ scope, binds (f scope) = binds scope) (scopes : List S) :
    (update binds f scopes).find? binds = (scopes.find? binds).map f := by
  induction scopes with
  | nil => rfl
  | cons scope outer ih =>
    rw [update]
    by_cases h : binds scope = true
    · rw [if_pos h, find?_cons_of_pos ((hbinds scope).trans h), find?_cons_of_pos h]
      rfl
    · rw [if_neg h, find?_cons_of_neg h, find?_cons_of_neg h, ih]

/-- What an update keeps of every scope is kept of the stack. -/
theorem map_update {g : S → A} (hkeeps : ∀ scope, g (f scope) = g scope) (scopes : List S) :
    (update binds f scopes).map g = scopes.map g := by
  induction scopes with
  | nil => rfl
  | cons scope outer ih =>
    rw [update]
    split
    · rw [map_cons, map_cons, hkeeps]
    · rw [map_cons, map_cons, ih]

/-- Another name is found as before, as far as the update keeps its scope. -/
theorem map_find?_of_map_eq {scopes scopes' : List S} {g : S → A} (found : A → Bool)
    (h : scopes'.map g = scopes.map g) :
    (scopes'.find? (fun scope => found (g scope))).map g =
      (scopes.find? (fun scope => found (g scope))).map g := by
  have hfind : ∀ scopes : List S, (scopes.find? (fun scope => found (g scope))).map g =
      (scopes.map g).find? found := by
    intro scopes
    rw [find?_map]
    rfl
  rw [hfind, hfind, h]

/-- The scopes on top come first. -/
theorem update_append (top outer : List S) : update binds f (top ++ outer) =
    if top.any binds then update binds f top ++ outer else top ++ update binds f outer := by
  induction top with
  | nil => rfl
  | cons scope top ih =>
    rw [cons_append, update, update, any_cons]
    by_cases h : binds scope = true
    · rw [if_pos h, if_pos h, h, Bool.true_or, if_pos rfl, cons_append]
    · rw [Bool.not_eq_true] at h
      rw [h, Bool.false_or, if_neg Bool.false_ne_true, if_neg Bool.false_ne_true, ih]
      split
      · rfl
      · rfl

@[simp] theorem length_update (scopes : List S) :
    (update binds f scopes).length = scopes.length := by
  induction scopes with
  | nil => rfl
  | cons scope outer ih =>
    rw [update]
    split
    · rfl
    · rw [length_cons, length_cons, ih]

/-- An update by index is the update of the scope that is found. -/
theorem set_eq_update {scopes : List S} {index : Nat} (h : scopes.findIdx? binds = some index) :
    ∃ scope, scopes[index]? = some scope ∧ scopes.find? binds = some scope ∧
      scopes.set index (f scope) = update binds f scopes := by
  induction scopes generalizing index with
  | nil => cases h
  | cons scope outer ih =>
    rw [findIdx?_cons] at h
    by_cases hbinds : binds scope = true
    · rw [if_pos hbinds] at h
      cases h
      refine ⟨scope, rfl, find?_cons_of_pos hbinds, ?_⟩
      rw [update, if_pos hbinds]
      rfl
    · rw [if_neg hbinds] at h
      obtain ⟨inner, hinner, rfl⟩ := Option.map_eq_some_iff.mp h
      obtain ⟨found, hget, hfind, hset⟩ := ih hinner
      refine ⟨found, hget, ?_, ?_⟩
      · rw [find?_cons_of_neg hbinds, hfind]
      · rw [update, if_neg hbinds, set_cons_succ, hset]

theorem find?_eq_none_of_findIdx? {scopes : List S} (h : scopes.findIdx? binds = none) :
    scopes.find? binds = none := by
  rw [findIdx?_eq_none_iff] at h
  rw [find?_eq_none]
  intro scope hscope
  rw [h scope hscope]
  exact Bool.false_ne_true

end Typokat.Lib.Scopes
