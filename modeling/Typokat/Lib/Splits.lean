import Mathlib.Data.List.Infix

/-!
# Words Split by Texts

A pattern is a list of texts with a hole between each two.  A word splits by it when it is
the texts in order with some gap at each hole, and every gap fits its hole.

## Main Results

- `Splits.start` : the first text can be taken off the front
- `Splits.prepend` : a text can be put in front
- `Splits.outer` : a word starts with the first text and ends with the last one
-/

namespace Typokat.Lib

variable {α H : Type}

/-- The word is the texts in order, with a gap that fits at each hole. -/
inductive Splits (fits : H → List α → Prop) : List H → List (List α) → List α → Prop
  | last (text : List α) : Splits fits [] [text] text
  | hole {hole : H} {holes : List H} {texts : List (List α)} {gap rest : List α}
      (text : List α) : fits hole gap → Splits fits holes texts rest →
      Splits fits (hole :: holes) (text :: texts) (text ++ (gap ++ rest))

namespace Splits

variable {fits fits' : H → List α → Prop} {holes : List H} {texts : List (List α)}
  {text word : List α}

theorem nil_iff : Splits fits [] texts word ↔ texts = [word] := by
  constructor
  · intro h
    cases h
    rfl
  · rintro rfl
    exact .last word

theorem cons_iff {hole : H} : Splits fits (hole :: holes) texts word ↔
    ∃ text behind gap rest, texts = text :: behind ∧ word = text ++ (gap ++ rest) ∧
      fits hole gap ∧ Splits fits holes behind rest := by
  constructor
  · intro h
    cases h with
    | hole text hgap hrest => exact ⟨text, _, _, _, rfl, rfl, hgap, hrest⟩
  · rintro ⟨text, behind, gap, rest, rfl, rfl, hgap, hrest⟩
    exact .hole text hgap hrest

theorem length_eq (h : Splits fits holes texts word) : texts.length = holes.length + 1 := by
  induction h with
  | last text => rfl
  | hole text _ _ ih => simp [ih]

theorem mono (h : Splits fits holes texts word)
    (hfits : ∀ hole ∈ holes, ∀ gap, fits hole gap → fits' hole gap) :
    Splits fits' holes texts word := by
  induction h with
  | last text => exact .last text
  | hole text hgap _ ih =>
    apply Splits.hole text (hfits _ List.mem_cons_self _ hgap)
    exact ih (fun other hother => hfits other (List.mem_cons_of_mem _ hother))

/-- What stands behind the first text splits by the pattern without it. -/
theorem start (h : Splits fits holes (text :: texts) word) :
    ∃ rest, word = text ++ rest ∧ Splits fits holes ([] :: texts) rest := by
  cases h with
  | last text => exact ⟨[], (List.append_nil text).symm, .last []⟩
  | hole text hgap hrest => exact ⟨_, rfl, .hole [] hgap hrest⟩

theorem prepend (h : Splits fits holes ([] :: texts) word) (text : List α) :
    Splits fits holes (text :: texts) (text ++ word) := by
  cases h with
  | last _ => simpa using Splits.last text
  | hole _ hgap hrest =>
    rw [List.nil_append]
    exact Splits.hole text hgap hrest

/-- A word starts with the first text and ends, behind it, with the last one. -/
theorem outer {hole : H} (h : Splits fits (hole :: holes) (text :: texts) word) :
    ∃ middle, word = text ++ (middle ++ texts.getLastD []) := by
  generalize hholes : hole :: holes = all at h
  generalize htexts : text :: texts = parts at h
  induction h generalizing hole holes text texts with
  | last _ => cases hholes
  | @hole _ others behind gap rest first _ hrest ih =>
    cases hholes
    cases htexts
    cases hrest with
    | last last => exact ⟨gap, rfl⟩
    | @hole next others' behind' gap' rest' second hgap' hrest' =>
      obtain ⟨middle, hmiddle⟩ := ih rfl rfl
      refine ⟨gap ++ (second ++ middle), ?_⟩
      rw [hmiddle]
      cases hrest' with
      | last _ => simp
      | hole _ _ _ => simp

end Splits

end Typokat.Lib
