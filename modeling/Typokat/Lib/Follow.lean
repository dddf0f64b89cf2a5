import Mathlib.Data.Finset.Insert
import Mathlib.Tactic.Common

/-!
# Following Successors

A walk along the successors of an element.  It ends at an element without another successor,
at one it has seen before, or with the reason why an element is blocked.

## Main Results

- `follow_ok` : a walk never ends at a blocked element
- `follow_moved` : a walk that ends elsewhere started along a successor
-/

namespace Typokat.Lib

variable {A E : Type} [DecidableEq A]

/-- The walk from `current`, with the elements it has seen and a bound on its length. -/
def follow (blocked : A → Option E) (next : A → Option A) : Nat → Finset A → A → Except E A
  | fuel, seen, current =>
    match blocked current with
    | some reason => .error reason
    | none =>
      if current ∈ seen then .ok current
      else
        match next current with
        | none => .ok current
        | some successor =>
          if successor = current then .ok current
          else
            match fuel with
            | 0 => .ok current
            | fuel + 1 => follow blocked next fuel (insert current seen) successor

variable {blocked : A → Option E} {next : A → Option A} {fuel : Nat} {seen : Finset A} {a b : A}

/-- **A walk never ends at a blocked element.** -/
theorem follow_ok (h : follow blocked next fuel seen a = .ok b) : blocked b = none := by
  fun_induction follow blocked next fuel seen a
  case case1 => cases h
  case case6 _ ih => exact ih h
  all_goals
    cases h
    assumption

theorem follow_error {reason : E} (h : follow blocked next fuel seen a = .error reason) :
    ∃ x, blocked x = some reason := by
  fun_induction follow blocked next fuel seen a
  case case1 current reason' hreason =>
    cases h
    exact ⟨current, hreason⟩
  case case6 _ ih => exact ih h
  all_goals cases h

/-- **A walk that ends elsewhere started along a successor.** -/
theorem follow_moved (h : follow blocked next fuel seen a = .ok b) (hne : b ≠ a) :
    ∃ successor, next a = some successor ∧ successor ≠ a := by
  fun_induction follow blocked next fuel seen a
  case case1 => cases h
  case case6 successor hnext hsuccessor _ _ => exact ⟨successor, hnext, hsuccessor⟩
  all_goals
    cases h
    exact absurd rfl hne

end Typokat.Lib
