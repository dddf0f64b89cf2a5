import Mathlib

/-!
# Runs of Equal Keys

Flat tables that are grouped by a key, and the offsets that describe the groups.

## Main Results

- `slice_offsetsFrom` : neighbouring offsets cut out one group
- `getElem?_runsOf` : when nothing is left over, a group is what has its key
- `afterRuns_eq_nil` : nothing is left over in a sorted table
- `rowsWithKey_eq_filter` : in a sorted table two partition points cut out the rows with a key
-/

namespace Typokat.Lib

open List

variable {A K : Type*}

/-! ## §1 Offsets -/

/-- Where consecutive groups start, the first at `start`, and where the last one ends. -/
def offsetsFrom (start : Nat) : List (List A) → List Nat
  | [] => [start]
  | run :: runs => start :: offsetsFrom (start + run.length) runs

@[simp]
theorem length_offsetsFrom (start : Nat) (runs : List (List A)) :
    (offsetsFrom start runs).length = runs.length + 1 := by
  induction runs generalizing start with
  | nil => rfl
  | cons run runs ih => rw [offsetsFrom, length_cons, ih, length_cons]

/-- An offset counts the rows of the groups before it. -/
theorem getElem?_offsetsFrom (start : Nat) (runs : List (List A)) {index : Nat}
    (hindex : index ≤ runs.length) :
    (offsetsFrom start runs)[index]? = some (start + (runs.take index).flatten.length) := by
  induction runs generalizing start index with
  | nil =>
    obtain rfl : index = 0 := Nat.le_zero.mp hindex
    rfl
  | cons run runs ih =>
    cases index with
    | zero => rfl
    | succ index =>
      rw [offsetsFrom, getElem?_cons_succ, ih _ (Nat.le_of_succ_le_succ hindex),
        take_succ_cons, flatten_cons, length_append, Nat.add_assoc]

/-- Neighbouring offsets are in order and stay within the table. -/
theorem exists_offsets (runs : List (List A)) {index : Nat} (hindex : index < runs.length) :
    ∃ start stop, (offsetsFrom 0 runs)[index]? = some start ∧
      (offsetsFrom 0 runs)[index + 1]? = some stop ∧ start ≤ stop ∧
      stop ≤ runs.flatten.length := by
  refine ⟨_, _, getElem?_offsetsFrom 0 runs (Nat.le_of_lt hindex),
    getElem?_offsetsFrom 0 runs hindex, ?_, ?_⟩
  · rw [take_succ_eq_append_getElem hindex, flatten_append, length_append]
    omega
  · have hflat := congrArg length (congrArg flatten (take_append_drop (index + 1) runs))
    rw [flatten_append, length_append] at hflat
    omega

/-- Neighbouring offsets cut one group out of the table. -/
theorem slice_offsetsFrom (runs : List (List A)) {index : Nat} {run : List A}
    (hrun : runs[index]? = some run) :
    (runs.flatten.take ((offsetsFrom 0 runs).getD (index + 1) 0)).drop
      ((offsetsFrom 0 runs).getD index 0) = run := by
  obtain ⟨hlt, rfl⟩ := List.getElem?_eq_some_iff.mp hrun
  rw [List.getD_eq_getElem?_getD, List.getD_eq_getElem?_getD, getElem?_offsetsFrom 0 runs hlt,
    getElem?_offsetsFrom 0 runs (Nat.le_of_lt hlt), Option.getD_some, Option.getD_some, Nat.zero_add,
    Nat.zero_add]
  have hfront : (runs.take (index + 1)).flatten = (runs.take index).flatten ++ runs[index] := by
    rw [take_succ_eq_append_getElem hlt, flatten_append, flatten_singleton]
  have hflat : runs.flatten = (runs.take (index + 1)).flatten ++ (runs.drop (index + 1)).flatten := by
    rw [← flatten_append, take_append_drop]
  rw [hflat, take_left, hfront, drop_left]

/-! ## §2 Grouping -/

section Grouping

variable [DecidableEq K] (key : A → K)

/-- One group per key: the rows in front that have the key. -/
def runsOf : List K → List A → List (List A)
  | [], _ => []
  | k :: keys, rows =>
    rows.takeWhile (fun row => key row = k)
      :: runsOf keys (rows.dropWhile (fun row => key row = k))

/-- The rows behind the last group. -/
def afterRuns : List K → List A → List A
  | [], rows => rows
  | k :: keys, rows => afterRuns keys (rows.dropWhile (fun row => key row = k))

@[simp]
theorem length_runsOf (keys : List K) (rows : List A) :
    (runsOf key keys rows).length = keys.length := by
  induction keys generalizing rows with
  | nil => rfl
  | cons k keys ih => rw [runsOf, length_cons, ih, length_cons]

theorem flatten_runsOf_append (keys : List K) (rows : List A) :
    (runsOf key keys rows).flatten ++ afterRuns key keys rows = rows := by
  induction keys generalizing rows with
  | nil => rfl
  | cons k keys ih =>
    rw [runsOf, afterRuns, flatten_cons, append_assoc, ih, takeWhile_append_dropWhile]

variable {key} {keys : List K} {rows : List A}

theorem flatten_runsOf (hall : afterRuns key keys rows = []) :
    (runsOf key keys rows).flatten = rows := by
  have h := flatten_runsOf_append key keys rows
  rwa [hall, append_nil] at h

theorem key_mem_of_mem_runsOf {row : A} (h : row ∈ (runsOf key keys rows).flatten) :
    key row ∈ keys := by
  induction keys generalizing rows with
  | nil => exact absurd h not_mem_nil
  | cons k keys ih =>
    rw [runsOf, flatten_cons, mem_append] at h
    rcases h with h | h
    · have hkey : key row = k := by simpa using mem_takeWhile_imp h
      rw [hkey]
      exact mem_cons_self
    · exact mem_cons_of_mem _ (ih h)

/-- **Groups are what has their key** when the groups make up the table. -/
theorem getElem?_runsOf (hnodup : keys.Nodup) (hall : afterRuns key keys rows = []) {index : Nat}
    {k : K} (hk : keys[index]? = some k) :
    (runsOf key keys rows)[index]? = some (rows.filter (fun row => key row = k)) := by
  induction keys generalizing rows index with
  | nil => simp at hk
  | cons first keys ih =>
    obtain ⟨hfirst, hnodup⟩ := nodup_cons.mp hnodup
    rw [afterRuns] at hall
    have hrest := flatten_runsOf hall
    -- behind the first group its key does not come again
    have hsplit : ∀ other, rows.filter (fun row => key row = other) =
        (rows.takeWhile (fun row => key row = first)).filter (fun row => key row = other) ++
          (rows.dropWhile (fun row => key row = first)).filter (fun row => key row = other) := by
      intro other
      rw [← filter_append, takeWhile_append_dropWhile]
    have htaken : ∀ row ∈ rows.takeWhile (fun row => key row = first), key row = first := by
      intro row hrow
      simpa using mem_takeWhile_imp hrow
    cases index with
    | zero =>
      obtain rfl : first = k := by simpa using hk
      have hnone : (rows.dropWhile (fun row => key row = first)).filter
          (fun row => key row = first) = [] := by
        rw [filter_eq_nil_iff]
        intro row hrow heq
        rw [← hrest] at hrow
        have hmem := key_mem_of_mem_runsOf hrow
        rw [of_decide_eq_true heq] at hmem
        exact hfirst hmem
      have hmine : (rows.takeWhile (fun row => key row = first)).filter
          (fun row => key row = first) = rows.takeWhile (fun row => key row = first) := by
        rw [filter_eq_self]
        exact fun row hrow => decide_eq_true (htaken row hrow)
      rw [runsOf, getElem?_cons_zero, hsplit first, hnone, hmine, append_nil]
    | succ index =>
      rw [getElem?_cons_succ] at hk
      have hne : first ≠ k := by
        rintro rfl
        exact hfirst (mem_of_getElem? hk)
      have hother : (rows.takeWhile (fun row => key row = first)).filter
          (fun row => key row = k) = [] := by
        rw [filter_eq_nil_iff]
        intro row hrow heq
        exact hne ((htaken row hrow).symm.trans (of_decide_eq_true heq))
      rw [runsOf, getElem?_cons_succ, ih hnodup hall hk, hsplit k, hother, nil_append]

end Grouping

/-- In a sorted table, the rows of the first key are in front. -/
theorem lt_of_mem_dropWhile [LinearOrder K] {key : A → K} {k : K} {rows : List A}
    (hsorted : rows.Pairwise (fun first second => key first ≤ key second))
    (hleast : ∀ row ∈ rows, k ≤ key row) {row : A}
    (hrow : row ∈ rows.dropWhile (fun row => key row = k)) : k < key row := by
  induction rows with
  | nil => exact absurd hrow not_mem_nil
  | cons first rows ih =>
    obtain ⟨hfirst, hsorted⟩ := pairwise_cons.mp hsorted
    by_cases heq : key first = k
    · rw [dropWhile_cons_of_pos (by simpa using heq)] at hrow
      exact ih hsorted (fun other hother => hleast other (mem_cons_of_mem _ hother)) hrow
    · rw [dropWhile_cons_of_neg (by simpa using heq)] at hrow
      have hlt : k < key first := lt_of_le_of_ne (hleast first mem_cons_self) (Ne.symm heq)
      rcases mem_cons.mp hrow with rfl | hrow
      · exact hlt
      · exact lt_of_lt_of_le hlt (hfirst row hrow)

/-- **Nothing is left over**: a sorted table over sorted keys is made up of the groups. -/
theorem afterRuns_eq_nil [LinearOrder K] {key : A → K} {keys : List K} {rows : List A}
    (hkeys : keys.Pairwise (· < ·))
    (hsorted : rows.Pairwise (fun first second => key first ≤ key second))
    (hmem : ∀ row ∈ rows, key row ∈ keys) : afterRuns key keys rows = [] := by
  induction keys generalizing rows with
  | nil => exact eq_nil_iff_forall_not_mem.mpr (fun row hrow => not_mem_nil (hmem row hrow))
  | cons k keys ih =>
    obtain ⟨hleast, hkeys⟩ := pairwise_cons.mp hkeys
    have hge : ∀ row ∈ rows, k ≤ key row := by
      intro row hrow
      rcases mem_cons.mp (hmem row hrow) with heq | hin
      · exact heq.ge
      · exact (hleast _ hin).le
    refine ih hkeys (hsorted.sublist (dropWhile_sublist _)) (fun row hrow => ?_)
    have hlt := lt_of_mem_dropWhile hsorted hge hrow
    exact (mem_cons.mp (hmem row (dropWhile_sublist _ |>.subset hrow))).resolve_left
      hlt.ne'

/-! ## §3 Partition points -/

/-- `slice::partition_point`: where a predicate stops to hold. -/
def partitionPoint (holds : A → Bool) (rows : List A) : Nat :=
  (rows.takeWhile holds).length

/-- The slice between the partition points of a key. -/
def rowsWithKey [LinearOrder K] (key : A → K) (rows : List A) (wanted : K) : List A :=
  let first := partitionPoint (fun row => key row < wanted) rows
  let last := partitionPoint (fun row => key row ≤ wanted) rows
  (rows.take last).drop first

theorem take_partitionPoint (holds : A → Bool) (rows : List A) :
    rows.take (partitionPoint holds rows) = rows.takeWhile holds :=
  (prefix_iff_eq_take.mp (List.takeWhile_prefix holds)).symm

theorem drop_partitionPoint (holds : A → Bool) (rows : List A) :
    rows.drop (partitionPoint holds rows) = rows.dropWhile holds := by
  have hsplit : rows.takeWhile holds ++ rows.dropWhile holds = rows :=
    takeWhile_append_dropWhile
  calc rows.drop (partitionPoint holds rows)
      = (rows.takeWhile holds ++ rows.dropWhile holds).drop (rows.takeWhile holds).length := by
        rw [hsplit, partitionPoint]
    _ = rows.dropWhile holds := drop_left

section Filters

variable {holds : A → Bool} {rows : List A}
  (hmono : rows.Pairwise (fun first second => holds second → holds first))
include hmono

/-- A predicate that holds up to some row and then no more. -/
theorem takeWhile_eq_filter :
    rows.takeWhile holds = rows.filter holds := by
  induction rows with
  | nil => rfl
  | cons row rows ih =>
    obtain ⟨hrow, hrest⟩ := pairwise_cons.mp hmono
    by_cases h : holds row
    · rw [takeWhile_cons_of_pos h, filter_cons_of_pos h, ih hrest]
    · rw [takeWhile_cons_of_neg h, filter_cons_of_neg h, eq_comm, filter_eq_nil_iff]
      exact fun other hother hholds => h (hrow other hother hholds)

theorem dropWhile_eq_filter :
    rows.dropWhile holds = rows.filter (fun row => !holds row) := by
  induction rows with
  | nil => rfl
  | cons row rows ih =>
    obtain ⟨hrow, hrest⟩ := pairwise_cons.mp hmono
    by_cases h : holds row
    · rw [dropWhile_cons_of_pos h, filter_cons_of_neg (by simp [h]), ih hrest]
    · have hnone : ∀ other ∈ row :: rows, !holds other := by
        intro other hother
        rcases mem_cons.mp hother with rfl | hin
        · simpa using h
        · simpa using fun hholds => h (hrow other hin hholds)
      rw [dropWhile_cons_of_neg h, filter_eq_self.mpr hnone]

end Filters

section Sorted

variable [LinearOrder K] {key : A → K} {rows : List A}
  (hsorted : rows.Pairwise (fun first second => key first ≤ key second))
include hsorted

/-- **Partition points find the rows with a key** in a sorted table. -/
theorem rowsWithKey_eq_filter (wanted : K) :
    rowsWithKey key rows wanted = rows.filter (fun row => key row = wanted) := by
  have hle : rows.Pairwise (fun first second =>
      decide (key second ≤ wanted) → decide (key first ≤ wanted)) :=
    hsorted.imp (fun hkey h => decide_eq_true (hkey.trans (of_decide_eq_true h)))
  have hlt : rows.Pairwise (fun first second =>
      decide (key second < wanted) → decide (key first < wanted)) :=
    hsorted.imp (fun hkey h => decide_eq_true (hkey.trans_lt (of_decide_eq_true h)))
  -- what is below the key lies in the first slice too
  have hpoint : partitionPoint (fun row => key row < wanted) rows = partitionPoint
      (fun row => key row < wanted) (rows.filter (fun row => key row ≤ wanted)) := by
    rw [partitionPoint, partitionPoint, takeWhile_eq_filter hlt,
      takeWhile_eq_filter (hlt.sublist filter_sublist), filter_filter]
    congr 1
    refine filter_congr (fun row _ => ?_)
    rw [← Bool.decide_and, decide_eq_decide]
    exact ⟨fun h => ⟨h, h.le⟩, fun h => h.1⟩
  unfold rowsWithKey
  dsimp only
  rw [take_partitionPoint, takeWhile_eq_filter hle, hpoint, drop_partitionPoint,
    dropWhile_eq_filter (hlt.sublist filter_sublist), filter_filter]
  refine filter_congr (fun row _ => ?_)
  rw [← decide_not, ← Bool.decide_and, decide_eq_decide, not_lt, and_comm]
  exact (le_antisymm_iff (a := key row) (b := wanted)).symm

theorem mem_rowsWithKey {wanted : K} {row : A} :
    row ∈ rowsWithKey key rows wanted ↔ row ∈ rows ∧ key row = wanted := by
  rw [rowsWithKey_eq_filter hsorted, mem_filter, decide_eq_true_eq]

end Sorted

end Typokat.Lib
