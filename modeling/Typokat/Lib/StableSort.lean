import Mathlib.Data.List.Sort
import Mathlib.Order.Lattice

/-!
# Stable Sorting by Key

Tagged values sorted stably by their tag.  When the values of one tag were written
together, a stable sort moves them as one group, so the sorted list only depends on which
groups there are and not on the order in which they were written.

## Main Results

- `sortByKey_groups` : sorting the values is sorting the groups
- `sortByKey_groups_perm` : the order of the groups does not matter
-/

namespace Typokat.Lib

open List

universe u v

variable {K : Type u} {V : Type v}

/-- The values of a list of groups, each with the tag of its group. -/
def ungroup (groups : List (K × List V)) : List (K × V) :=
  groups.flatMap (fun group => group.2.map (fun value => (group.1, value)))

@[simp] theorem ungroup_nil : ungroup ([] : List (K × List V)) = [] := rfl

@[simp] theorem ungroup_cons (group : K × List V) (groups : List (K × List V)) :
    ungroup (group :: groups) = group.2.map (fun value => (group.1, value)) ++ ungroup groups :=
  rfl

variable {groups : List (K × List V)}

theorem mem_ungroup {entry : K × V} :
    entry ∈ ungroup groups ↔ ∃ group ∈ groups, entry.1 = group.1 ∧ entry.2 ∈ group.2 := by
  simp only [ungroup, mem_flatMap, mem_map]
  constructor
  · rintro ⟨group, hgroup, value, hvalue, rfl⟩
    exact ⟨group, hgroup, rfl, hvalue⟩
  · rintro ⟨group, hgroup, hkey, hvalue⟩
    exact ⟨group, hgroup, entry.2, hvalue, Prod.ext hkey.symm rfl⟩

variable [LinearOrder K]

/-- A stable sort of tagged values by their tag. -/
def sortByKey (entries : List (K × V)) : List (K × V) :=
  entries.insertionSort (fun a b => a.1 ≤ b.1)

/-- An entry goes in front of the entries that are not below it. -/
theorem orderedInsert_append {entry : K × V} {below rest : List (K × V)}
    (hbelow : ∀ other ∈ below, other.1 < entry.1) (hrest : ∀ other ∈ rest, entry.1 ≤ other.1) :
    (below ++ rest).orderedInsert (fun a b => a.1 ≤ b.1) entry = below ++ entry :: rest := by
  induction below with
  | nil =>
    cases rest with
    | nil => rfl
    | cons first rest => exact if_pos (hrest first (by simp))
  | cons first below ih =>
    rw [cons_append, orderedInsert_cons, if_neg (hbelow first (by simp)).not_ge,
      ih (fun other hother => hbelow other (mem_cons_of_mem _ hother)), cons_append]

/-- A whole group goes in front of the entries that are not below it. -/
theorem insertGroup_append {key : K} {values : List V} {below rest : List (K × V)}
    (hbelow : ∀ other ∈ below, other.1 < key) (hrest : ∀ other ∈ rest, key < other.1) :
    (values.map (fun value => (key, value))).foldr
      (orderedInsert (fun a b => a.1 ≤ b.1)) (below ++ rest)
      = below ++ (values.map (fun value => (key, value)) ++ rest) := by
  induction values with
  | nil => rfl
  | cons value values ih =>
    rw [map_cons, foldr_cons, ih, cons_append]
    refine orderedInsert_append hbelow (fun other hother => ?_)
    rcases mem_append.mp hother with hother | hother
    · obtain ⟨_, _, rfl⟩ := mem_map.mp hother
      exact le_rfl
    · exact (hrest other hother).le

/-- Where a new group lands among sorted groups. -/
theorem orderedInsert_split {group : K × List V} (hsorted : groups.Pairwise (fun a b => a.1 ≤ b.1))
    (hfresh : group.1 ∉ groups.map Prod.fst) :
    ∃ below rest, groups = below ++ rest ∧ (∀ other ∈ below, other.1 < group.1) ∧
      (∀ other ∈ rest, group.1 < other.1) ∧
      groups.orderedInsert (fun a b => a.1 ≤ b.1) group = below ++ group :: rest := by
  induction groups with
  | nil => exact ⟨[], [], rfl, by simp, by simp, rfl⟩
  | cons first groups ih =>
    obtain ⟨hfirst, hsorted⟩ := pairwise_cons.mp hsorted
    rw [map_cons, mem_cons, not_or] at hfresh
    rcases lt_or_gt_of_ne hfresh.1 with hlt | hgt
    · refine ⟨[], first :: groups, rfl, by simp, fun other hother => ?_,
        if_pos hlt.le⟩
      rcases mem_cons.mp hother with rfl | hother
      · exact hlt
      · exact hlt.trans_le (hfirst other hother)
    · obtain ⟨below, rest, heq, hbelow, hrest, hinsert⟩ := ih hsorted hfresh.2
      refine ⟨first :: below, rest, by rw [heq, cons_append], fun other hother => ?_, hrest, ?_⟩
      · rcases mem_cons.mp hother with rfl | hother
        · exact hgt
        · exact hbelow other hother
      · rw [orderedInsert_cons, if_neg hgt.not_ge, hinsert, cons_append]

theorem pairwise_sortGroups (groups : List (K × List V)) :
    (sortByKey groups).Pairwise (fun a b => a.1 ≤ b.1) := by
  have : Std.Total (fun a b : K × List V => a.1 ≤ b.1) := ⟨fun a b => le_total a.1 b.1⟩
  have : IsTrans (K × List V) (fun a b => a.1 ≤ b.1) := ⟨fun _ _ _ h h' => h.trans h'⟩
  exact pairwise_insertionSort _ groups

/-- **Sorting the values of groups with different tags is sorting the groups.** -/
theorem sortByKey_groups (hnodup : (groups.map Prod.fst).Nodup) :
    sortByKey (ungroup groups) = ungroup (sortByKey groups) := by
  induction groups with
  | nil => rfl
  | cons group groups ih =>
    obtain ⟨hfresh, hnodup⟩ := nodup_cons.mp (map_cons ▸ hnodup)
    have hperm : (sortByKey groups).Perm groups := perm_insertionSort _ groups
    have hfresh' : group.1 ∉ (sortByKey groups).map Prod.fst := by
      rwa [(hperm.map Prod.fst).mem_iff]
    obtain ⟨below, rest, heq, hbelow, hrest, hinsert⟩ :=
      orderedInsert_split (pairwise_sortGroups groups) hfresh'
    -- the entries of the new group are inserted one by one into the sorted rest
    have hfold : sortByKey (ungroup (group :: groups))
        = (group.2.map (fun value => (group.1, value))).foldr
          (orderedInsert (fun a b => a.1 ≤ b.1)) (sortByKey (ungroup groups)) := by
      rw [ungroup_cons, sortByKey, insertionSort, foldr_append]
      rfl
    have hgroups : sortByKey (group :: groups) = below ++ group :: rest := hinsert
    have hungroup : ∀ xs ys : List (K × List V), ungroup (xs ++ ys) = ungroup xs ++ ungroup ys :=
      fun xs ys => flatMap_append
    rw [hfold, ih hnodup, hgroups, heq, hungroup, hungroup, ungroup_cons]
    refine insertGroup_append (fun other hother => ?_) (fun other hother => ?_)
    · obtain ⟨owner, howner, hkey, _⟩ := mem_ungroup.mp hother
      exact hkey ▸ hbelow owner howner
    · obtain ⟨owner, howner, hkey, _⟩ := mem_ungroup.mp hother
      exact hkey ▸ hrest owner howner

/-- Sorted groups with different tags are in strict order. -/
theorem strict_sortGroups (hnodup : (groups.map Prod.fst).Nodup) :
    (sortByKey groups).Pairwise (fun a b => a.1 < b.1) := by
  have hperm : (sortByKey groups).Perm groups := perm_insertionSort _ groups
  have hne : ((sortByKey groups).map Prod.fst).Nodup := (hperm.map Prod.fst).nodup_iff.mpr hnodup
  rw [List.Nodup, pairwise_map] at hne
  exact (pairwise_sortGroups groups).imp₂ (fun a b hle hlt => lt_of_le_of_ne hle hlt) hne

/-- **The order in which the groups were written does not matter.** -/
theorem sortByKey_groups_perm {groups groups' : List (K × List V)}
    (hnodup : (groups.map Prod.fst).Nodup) (hperm : groups'.Perm groups) :
    sortByKey (ungroup groups') = sortByKey (ungroup groups) := by
  have hnodup' : (groups'.map Prod.fst).Nodup := (hperm.map Prod.fst).nodup_iff.mpr hnodup
  rw [sortByKey_groups hnodup, sortByKey_groups hnodup']
  congr 1
  have hsorted : (sortByKey groups').Perm (sortByKey groups) :=
    (perm_insertionSort _ groups').trans (hperm.trans (perm_insertionSort _ groups).symm)
  exact List.Perm.eq_of_pairwise
    (fun a b _ _ hab hba => absurd (hab.trans hba) (lt_irrefl a.1))
    (strict_sortGroups hnodup') (strict_sortGroups hnodup) hsorted

end Typokat.Lib
