import Mathlib.Logic.Basic
import Mathlib.Order.Basic

/-!
# Identity Stamps

Values carry a number that stands for their contents: a copy keeps the number of the original,
a changed value gets a new one.  Then equal numbers mean equal observations, also between
values of different times.

## Main Results

- `Stamped.insert` : a new value is a copy of a value that was seen, or its number is new
-/

namespace Typokat.Lib

universe u v

variable {V : Type u} {O : Type v} {stamp : V → Nat} {observe : V → O} {seen : V → Prop}
  {next : Nat}

/-- Among the values that were seen, the stamp determines the observation; `next` is unused. -/
structure Stamped (stamp : V → Nat) (observe : V → O) (seen : V → Prop) (next : Nat) : Prop where
  lt_next : ∀ value, seen value → stamp value < next
  determined : ∀ value other, seen value → seen other → stamp value = stamp other →
    observe value = observe other

theorem stamped_empty : Stamped stamp observe (fun _ => False) next :=
  ⟨fun _ h => h.elim, fun _ _ h => h.elim⟩

/-- **One more value.** It was copied from a value that was seen, or its stamp is the next. -/
theorem Stamped.insert (h : Stamped stamp observe seen next) {value : V}
    (hvalue : stamp value = next ∨
      ∃ original, seen original ∧ stamp value = stamp original ∧
        observe value = observe original) :
    Stamped stamp observe (fun other => seen other ∨ other = value) (next + 1) := by
  have hlt : stamp value < next + 1 := by
    rcases hvalue with heq | ⟨original, hseen, heq, _⟩
    · omega
    · have := h.lt_next original hseen
      omega
  have hsame : ∀ other, seen other → stamp value = stamp other →
      observe value = observe other := by
    intro other hother hstamp
    rcases hvalue with heq | ⟨original, hseen, heq, hobserve⟩
    · have := h.lt_next other hother
      omega
    · exact hobserve.trans (h.determined original other hseen hother (heq.symm.trans hstamp))
  constructor
  · rintro other (hother | rfl)
    · exact Nat.lt_succ_of_lt (h.lt_next other hother)
    · exact hlt
  · rintro first second (hfirst | rfl) (hsecond | rfl) hstamp
    · exact h.determined first second hfirst hsecond hstamp
    · exact (hsame first hfirst hstamp.symm).symm
    · exact hsame second hsecond hstamp
    · rfl

/-- No new value. -/
theorem Stamped.mono (h : Stamped stamp observe seen next) {fewer : V → Prop} {later : Nat}
    (hseen : ∀ value, fewer value → seen value) (hnext : next ≤ later) :
    Stamped stamp observe fewer later :=
  ⟨fun value hvalue => Nat.lt_of_lt_of_le (h.lt_next value (hseen value hvalue)) hnext,
    fun value other hvalue hother => h.determined value other (hseen value hvalue)
      (hseen other hother)⟩

end Typokat.Lib
