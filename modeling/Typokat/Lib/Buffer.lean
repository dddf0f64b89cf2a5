import Mathlib.Data.List.DropRight
import Mathlib.Tactic.Common

/-!
# Budgeted Text Buffer

A buffer takes at most `limit` symbols.  The first text that does not fit closes it: the
buffer keeps what fits in front of a marker and takes nothing from then on.

## Main Results

- `view_append` : appending piece by piece cuts the whole text once
- `Fits.append` : the buffer never holds more than its limit
-/

namespace Typokat.Lib

open List

/-- The text so far, the budget that is left and whether the buffer is closed. -/
@[ext] structure Buffer (α : Type*) where
  output : List α := []
  remaining : Nat
  truncated : Bool := false

variable {α : Type*}

/-- The text when it is short enough, and what fits in front of the marker otherwise. -/
def cut (limit : Nat) (marker text : List α) : List α :=
  if text.length ≤ limit then text else text.take (limit - marker.length) ++ marker

namespace Buffer

section Operations

variable (limit : Nat) (marker : List α)

/-- What stays in front of the marker when a text does not fit. -/
def kept (b : Buffer α) (text : List α) : List α :=
  let targetPrefixLen := limit - marker.length
  let currentLen := limit - b.remaining
  -- symbols may have to be taken back to make room for the marker
  if targetPrefixLen < currentLen then b.output.rdrop (currentLen - targetPrefixLen)
  else b.output ++ text.take (targetPrefixLen - currentLen)

/-- Append a text; one that does not fit closes the buffer. -/
def append (b : Buffer α) (text : List α) : Buffer α :=
  if b.truncated then b
  else
    -- only as much of the text is measured as is needed to see whether it fits
    let textLen := (text.take (b.remaining + 1)).length
    if textLen ≤ b.remaining then
      { b with output := b.output ++ text, remaining := b.remaining - textLen }
    else
      { output := b.kept limit marker text ++ marker, remaining := 0, truncated := true }

/-- Give the text up for the marker. -/
def collapse : Buffer α :=
  { output := marker, remaining := limit - marker.length, truncated := true }

/-- The buffer that shows a text. -/
def view (text : List α) : Buffer α :=
  if text.length ≤ limit then { output := text, remaining := limit - text.length }
  else { output := cut limit marker text, remaining := 0, truncated := true }

end Operations

/-- No more than the limit, and the budget is what is left of it. -/
structure Fits (limit : Nat) (b : Buffer α) : Prop where
  within : b.output.length ≤ limit
  budget : b.truncated = false → b.output.length + b.remaining = limit

variable {limit : Nat} {marker : List α} {b : Buffer α} {text rest : List α}

/-! ## The three outcomes of an append -/

theorem append_of_truncated (h : b.truncated = true) : b.append limit marker text = b := by
  simp [append, h]

theorem append_of_le (hopen : b.truncated = false) (h : text.length ≤ b.remaining) :
    b.append limit marker text =
      { b with output := b.output ++ text, remaining := b.remaining - text.length } := by
  have hmeasure : (text.take (b.remaining + 1)).length = text.length := by
    rw [length_take]
    omega
  simp [append, hopen, hmeasure, h]

theorem append_of_lt (hopen : b.truncated = false) (h : b.remaining < text.length) :
    b.append limit marker text =
      { output := b.kept limit marker text ++ marker, remaining := 0, truncated := true } := by
  have hmeasure : ¬ (text.take (b.remaining + 1)).length ≤ b.remaining := by
    rw [length_take]
    omega
  simp only [append, hopen, Bool.false_eq_true, if_false, hmeasure]

theorem mem_kept {symbol : α} (h : symbol ∈ b.kept limit marker text) :
    symbol ∈ b.output ∨ symbol ∈ text := by
  simp only [kept] at h
  split_ifs at h with hback
  · exact .inl (mem_of_mem_take h)
  · rcases mem_append.mp h with h | h
    · exact .inl h
    · exact .inr (mem_of_mem_take h)

/-! ## Appending to a view -/

theorem view_of_le (h : text.length ≤ limit) :
    view limit marker text = { output := text, remaining := limit - text.length } := by
  simp [view, h]

theorem view_of_lt (h : limit < text.length) : view limit marker text =
    { output := text.take (limit - marker.length) ++ marker, remaining := 0,
      truncated := true } := by
  simp [view, cut, Nat.not_le.mpr h]

@[simp] theorem view_output : (view limit marker text).output = cut limit marker text := by
  by_cases h : text.length ≤ limit
  · simp [view_of_le h, cut, h]
  · rw [view_of_lt (Nat.not_le.mp h)]
    simp [cut, h]

theorem view_truncated : (view limit marker text).truncated = true ↔ limit < text.length := by
  by_cases h : text.length ≤ limit
  · simp [view_of_le h, h]
  · simp [view_of_lt (Nat.not_le.mp h), Nat.not_le.mp h]

/-- A text that is cut already looks the same whatever follows it. -/
theorem view_append_of_lt (h : limit < text.length) :
    view limit marker (text ++ rest) = view limit marker text := by
  have hlonger : limit < (text ++ rest).length := by
    rw [length_append]
    omega
  rw [view_of_lt h, view_of_lt hlonger, take_append_of_le_length (by omega)]

/-- The kept prefix of a text that fitted so far is a prefix of the whole text. -/
theorem kept_of_le (h : text.length ≤ limit) :
    kept limit marker { output := text, remaining := limit - text.length } rest =
      (text ++ rest).take (limit - marker.length) := by
  have hcurrent : limit - (limit - text.length) = text.length := by omega
  simp only [kept, hcurrent]
  split_ifs with hback
  · rw [rdrop, take_append_of_le_length (by omega)]
    congr 1
    omega
  · rw [take_append, take_of_length_le (Nat.not_lt.mp hback)]

/-- **Appending piece by piece cuts the whole text once.** -/
theorem view_append : (view limit marker text).append limit marker rest =
    view limit marker (text ++ rest) := by
  by_cases htext : text.length ≤ limit
  · rw [view_of_le htext]
    by_cases hfits : rest.length ≤ limit - text.length
    · have hwhole : (text ++ rest).length ≤ limit := by
        rw [length_append]
        omega
      rw [append_of_le rfl hfits, view_of_le hwhole]
      simp [Nat.sub_sub]
    · have hwhole : limit < (text ++ rest).length := by
        rw [length_append]
        omega
      rw [append_of_lt rfl (Nat.not_le.mp hfits), view_of_lt hwhole, kept_of_le htext]
  · have hclosed : (view limit marker text).truncated = true :=
      view_truncated.mpr (Nat.not_le.mp htext)
    rw [append_of_truncated hclosed, view_append_of_lt (Nat.not_le.mp htext)]

/-! ## What a buffer holds -/

theorem Fits.collapse (hmarker : marker.length ≤ limit) : Fits limit (collapse limit marker) :=
  ⟨hmarker, fun h => absurd h (by simp [Buffer.collapse])⟩

theorem length_kept (hbudget : b.output.length + b.remaining = limit) :
    (b.kept limit marker text).length ≤ limit - marker.length := by
  simp only [kept]
  split_ifs with hback
  · rw [rdrop, length_take]
    omega
  · rw [length_append, length_take]
    omega

/-- **The buffer never holds more than its limit.** -/
theorem Fits.append (hmarker : marker.length ≤ limit) (hfits : Fits limit b) :
    Fits limit (b.append limit marker text) := by
  cases htruncated : b.truncated
  · have hbudget := hfits.budget htruncated
    by_cases hroom : text.length ≤ b.remaining
    · rw [append_of_le htruncated hroom]
      have hlength : (b.output ++ text).length + (b.remaining - text.length) = limit := by
        rw [length_append]
        omega
      exact ⟨by simp only; omega, fun _ => hlength⟩
    · rw [append_of_lt htruncated (Nat.not_le.mp hroom)]
      have hkept : (b.kept limit marker text).length ≤ limit - marker.length :=
        length_kept hbudget
      refine ⟨?_, fun h => absurd h (by simp)⟩
      show (b.kept limit marker text ++ marker).length ≤ limit
      rw [length_append]
      omega
  · rw [append_of_truncated htruncated]
    exact hfits

/-- What holds of the texts and of the marker holds of every symbol of the buffer. -/
theorem forall_append {P : α → Prop} (houtput : ∀ symbol ∈ b.output, P symbol)
    (htext : ∀ symbol ∈ text, P symbol) (hmarker : ∀ symbol ∈ marker, P symbol) :
    ∀ symbol ∈ (b.append limit marker text).output, P symbol := by
  cases htruncated : b.truncated
  · by_cases hroom : text.length ≤ b.remaining
    · rw [append_of_le htruncated hroom]
      exact forall_mem_append.mpr ⟨houtput, htext⟩
    · rw [append_of_lt htruncated (Nat.not_le.mp hroom)]
      refine forall_mem_append.mpr ⟨fun symbol hsymbol => ?_, hmarker⟩
      exact (mem_kept hsymbol).elim (houtput symbol) (htext symbol)
  · rw [append_of_truncated htruncated]
    exact houtput

end Buffer

end Typokat.Lib
