import Typokat.Lib.Checks
import Typokat.Types.History
import Typokat.Diagnostics.RenderRuns

/-!
# Bounded Displays (`diagnostics/render_type.rs`)

The limited traversal is followed next to one without the character limit, which has no depth
limit either or stops there.  Before the first text that does not fit both hold the same
output.  From then on the limited one does nothing, while the other one only adds to a text
whose cut is settled.  The stacks agree at every step, so both expand the same types and find
the same bindings.

## Main Results

- `renderType_eq_reached` : the display is what the limits make of the texts that are reached
- `render_type_bounded_and_exact` : the display is bounded and cuts the whole text exactly
-/

namespace Typokat.Diagnostics

open Types Lib

/-! ## §1 A display under its limits -/

/-- What the limits make of a display that grew without a limit on its characters.  One that
    stopped at the depth limit is given up, unless it was cut before. -/
def shown (b : Buffer Glyph) : Buffer Glyph :=
  if b.truncated = true ∧ b.output.length ≤ displayCharLimit then
    Buffer.collapse displayCharLimit ellipsis
  else Buffer.view displayCharLimit ellipsis b.output

def RenderContext.limited (c : RenderContext) : RenderContext :=
  { c with display := shown c.display }

/-- Without the character limit a display only grows, and not any more once it stopped. -/
def Grows (free : Limits) (b b' : Buffer Glyph) : Prop :=
  (free = .unlimited → b'.truncated = b.truncated) ∧ (b.truncated = true → b' = b) ∧
    ∃ rest, b'.output = b.output ++ rest

theorem Grows.refl (free : Limits) (b : Buffer Glyph) : Grows free b b :=
  ⟨fun _ => rfl, fun _ => rfl, [], (List.append_nil _).symm⟩

/-- The display under the limits is a buffer that holds no more than it may. -/
theorem fits_rule (rs : RenderStore) : DisplayRule rs .display
    (fun b b' => b.Fits displayCharLimit → b'.Fits displayCharLimit) where
  refl b h := h
  trans b₁ b₂ b₃ h₁₂ h₂₃ h := h₂₃ (h₁₂ h)
  append c text _ h := Buffer.Fits.append (by decide) h
  collapse _ c _ := Buffer.Fits.collapse (by decide)

section Shown

variable {b b' : Buffer Glyph}

theorem shown_of_open (h : b.truncated = false) :
    shown b = Buffer.view displayCharLimit ellipsis b.output :=
  if_neg (fun hstopped => absurd (h.symm.trans hstopped.1) (by decide))

theorem shown_of_lt (h : displayCharLimit < b.output.length) :
    shown b = Buffer.view displayCharLimit ellipsis b.output :=
  if_neg (fun hstopped => Nat.not_le.mpr h hstopped.2)

theorem shown_truncated (h : b.truncated = true) : (shown b).truncated = true := by
  unfold shown
  split_ifs with hshort
  · rfl
  · exact Buffer.view_truncated.mpr (Nat.not_le.mp (fun hle => hshort ⟨h, hle⟩))

/-- A display that is cut already is the same whatever is added to it. -/
theorem shown_eq_of_truncated {free : Limits} (hgrows : Grows free b b')
    (h : (shown b).truncated = true) : shown b' = shown b := by
  obtain ⟨_, hstopped, rest, hrest⟩ := hgrows
  cases htruncated : b.truncated with
  | true => rw [hstopped htruncated]
  | false =>
    rw [shown_of_open htruncated] at h ⊢
    have hlong : displayCharLimit < b.output.length := Buffer.view_truncated.mp h
    have hlonger : displayCharLimit < b'.output.length := by
      rw [hrest, List.length_append]
      omega
    rw [shown_of_lt hlonger, hrest]
    exact Buffer.view_append_of_lt hlong

end Shown

section Limited

variable {free : Limits} {c c' : RenderContext}

theorem append_of_stopped (hfree : free ≠ .display) (text : Text)
    (h : c.display.truncated = true) : c.append free text = c := by
  cases free with
  | display => exact absurd rfl hfree
  | depthOnly => simp [RenderContext.append, h]
  | unlimited => simp [RenderContext.append, h]

theorem append_of_open (hfree : free ≠ .display) (text : Text)
    (h : c.display.truncated = false) :
    c.append free text =
      { c with display := { c.display with output := c.display.output ++ text } } := by
  cases free with
  | display => exact absurd rfl hfree
  | depthOnly => simp [RenderContext.append, h]
  | unlimited => simp [RenderContext.append, h]

theorem grows_rule (rs : RenderStore) (hfree : free ≠ .display) :
    DisplayRule rs free (Grows free) where
  refl b := Grows.refl free b
  trans b₁ b₂ b₃ h₁₂ h₂₃ := by
    obtain ⟨hsame, hstopped, rest, hrest⟩ := h₁₂
    obtain ⟨hsame', hstopped', more, hmore⟩ := h₂₃
    refine ⟨fun h => (hsame' h).trans (hsame h), fun h => ?_, rest ++ more, ?_⟩
    · have heq : b₂ = b₁ := hstopped h
      rw [hstopped' (heq ▸ h), heq]
    · rw [hmore, hrest, List.append_assoc]
  append c text _ := by
    cases h : c.display.truncated with
    | true =>
      rw [append_of_stopped hfree text h]
      exact Grows.refl free _
    | false =>
      rw [append_of_open hfree text h]
      exact ⟨fun _ => rfl, fun hstopped => absurd (h.symm.trans hstopped) (by decide), text, rfl⟩
  collapse hlimits c := by
    cases free with
    | display => exact absurd rfl hfree
    | unlimited => exact absurd rfl hlimits
    | depthOnly =>
      refine ⟨fun h => absurd h (by decide), fun h => ?_, [], (List.append_nil _).symm⟩
      simp only [RenderContext.stopAtDepthLimit, ← h]

theorem limited_append (hfree : free ≠ .display) (text : Text) :
    c.limited.append .display text = (c.append free text).limited := by
  unfold RenderContext.limited
  cases h : c.display.truncated with
  | true =>
    rw [append_of_stopped hfree text h]
    simp only [RenderContext.append, Buffer.append_of_truncated (shown_truncated h)]
  | false =>
    rw [append_of_open hfree text h]
    have hlonger : shown { c.display with output := c.display.output ++ text } =
        Buffer.view displayCharLimit ellipsis (c.display.output ++ text) := shown_of_open h
    simp only [RenderContext.append, shown_of_open h, Buffer.view_append, hlonger]

theorem limited_eq_of_truncated (hrestored : Restored c c') (hgrows : Grows free c.display c'.display)
    (h : c.limited.display.truncated = true) : c'.limited = c.limited := by
  obtain ⟨display, rendering, overlays, overlayLimit, depth⟩ := c
  obtain ⟨display', rendering', overlays', overlayLimit', depth'⟩ := c'
  obtain ⟨hrendering, hoverlays, hlimit, hdepth⟩ := hrestored
  simp only at hrendering hoverlays hlimit hdepth
  subst hrendering hoverlays hlimit hdepth
  have hshown : shown display' = shown display := shown_eq_of_truncated hgrows h
  simp only [RenderContext.limited, hshown]

theorem pushOverlay_limited {overlay : Overlay} {frame : OverlayFrame}
    (h : c.pushOverlay overlay = .ok (frame, c')) :
    c.limited.pushOverlay overlay = .ok (frame, c'.limited) := by
  unfold RenderContext.pushOverlay at h ⊢
  split_ifs at h with hrange
  cases h
  rw [if_neg (show ¬ c.limited.overlays.length < c.limited.overlayLimit from hrange)]
  rfl

theorem popOverlay_limited {frame : OverlayFrame} (h : c.popOverlay frame = .ok c') :
    c.limited.popOverlay frame = .ok c'.limited := by
  unfold RenderContext.popOverlay at h ⊢
  split_ifs at h with hempty
  cases h
  rw [if_neg (show ¬ c.limited.overlays = [] from hempty)]
  rfl

end Limited

/-! ## §2 Printers side by side -/

section Printers

variable {rs : RenderStore} {free : Limits} {depth : Nat}
  {call call' : RenderBinding → RenderContext → Except RenderStop RenderContext}
  {tagOf tagOf' : RenderBinding → RenderContext → Except RenderStop TypeTag}

/-- A printer that finishes without the character limit finishes under the limits, with what
    they make of its display. -/
theorem Print.run_limited (hfree : free ≠ .display)
    (hspec : ∀ binding c, c.InRange → c.depth = depth →
      Outcome rs free (Grows free) c (call binding c))
    (hstop : ∀ binding c stop, c.InRange → c.depth = depth → tagOf binding c = .error stop →
      StopsAt rs free stop)
    (hcall : ∀ binding c c', c.InRange → c.depth = depth → call binding c = .ok c' →
      call' binding c.limited = .ok c'.limited)
    (htag : ∀ binding c tag, c.depth = depth → tagOf binding c = .ok tag →
      tagOf' binding c.limited = .ok tag)
    {p : Print} (hp : p.FromStore rs) {c c' : RenderContext} (hc : c.InRange)
    (hdepth : c.depth = depth) (h : p.run free call tagOf c = .ok c') :
    p.run .display call' tagOf' c.limited = .ok c'.limited := by
  induction p generalizing c c' with
  | done =>
    cases h
    rfl
  | append text =>
    cases h
    exact congrArg Except.ok (limited_append hfree text)
  | render binding => exact hcall binding c c' hc hdepth h
  | seq first second ihFirst ihSecond =>
    obtain ⟨c₁, hfirst, hsecond⟩ := bind_eq_ok.mp h
    have houtcome := Print.run_spec (grows_rule rs hfree) hspec hstop hp.1 hc hdepth
    rw [hfirst] at houtcome
    have hlater := ihSecond hp.2 (houtcome.1.inRange hc) (houtcome.1.depth.trans hdepth) hsecond
    exact bind_eq_ok.mpr ⟨_, ihFirst hp.1 hc hdepth hfirst, hlater⟩
  | unlessTruncated body ih =>
    unfold Print.run at h ⊢
    split_ifs at h with hstopped
    · cases h
      rw [if_pos (show c.limited.display.truncated = true from shown_truncated hstopped)]
    · split_ifs with htruncated
      · -- the loop is left, and what the other traversal still adds lies behind the cut
        have houtcome := Print.run_spec (grows_rule rs hfree) hspec hstop (p := body) hp hc hdepth
        rw [h] at houtcome
        exact congrArg Except.ok
          (limited_eq_of_truncated houtcome.1 houtcome.2 htruncated).symm
      · exact ih hp hc hdepth h
  | parenthesized tags binding =>
    obtain ⟨tag, htagged, hrest⟩ := bind_eq_ok.mp h
    refine bind_eq_ok.mpr ⟨tag, htag binding c tag hdepth htagged, ?_⟩
    split_ifs at hrest ⊢ with hmem
    · obtain ⟨c₁, hinner, heq⟩ := map_eq_ok.mp hrest
      subst heq
      have hopened := hcall binding (c.append free (made ['('])) c₁ hc hdepth hinner
      rw [limited_append hfree, hopened]
      exact congrArg Except.ok (limited_append hfree _)
    · exact hcall binding c c' hc hdepth hrest
  | guarded id body ih =>
    unfold Print.run at h ⊢
    split_ifs at h with hmem
    · cases h
      rw [if_pos (show id ∈ c.limited.rendering from hmem)]
      exact congrArg Except.ok (limited_append hfree ellipsis)
    · rw [if_neg (show ¬ id ∈ c.limited.rendering from hmem)]
      exact ih hp hc hdepth h
  | pushed id body ih =>
    obtain ⟨c₁, hbody, heq⟩ := map_eq_ok.mp h
    subst heq
    exact map_eq_ok.mpr
      ⟨_, @ih hp { c with rendering := id :: c.rendering } c₁ hc hdepth hbody, rfl⟩
  | overlaid overlay body ih =>
    obtain ⟨⟨frame, inner⟩, hpush, hrest⟩ := bind_eq_ok.mp h
    obtain ⟨c₁, hbody, hpop⟩ := bind_eq_ok.mp hrest
    obtain ⟨frame', inner', hpush', hinRange, _, hsame, _⟩ := pushOverlay_eq_ok hc overlay
    cases hpush.symm.trans hpush'
    have hinner := ih hp hinRange (hsame.trans hdepth) hbody
    exact bind_eq_ok.mpr ⟨_, pushOverlay_limited hpush,
      bind_eq_ok.mpr ⟨_, hinner, popOverlay_limited hpop⟩⟩
  | bound parameter otherwise ih =>
    obtain ⟨found, hfound, hrest⟩ := bind_eq_ok.mp h
    refine bind_eq_ok.mpr ⟨found, hfound, ?_⟩
    cases found with
    | none => exact ih hp hc hdepth hrest
    | some entry =>
      obtain ⟨layer, binding⟩ := entry
      obtain ⟨c₁, hinner, heq⟩ := map_eq_ok.mp hrest
      subst heq
      obtain ⟨found', hfound', hbelow⟩ := @overlayBinding_eq_ok c parameter _ hc
      cases hfound.symm.trans hfound'
      have hlayer : layer < c.overlayLimit := hbelow layer binding rfl
      have hrun := hcall binding { c with overlayLimit := layer } c₁ (le_trans hlayer.le hc)
        hdepth hinner
      exact map_eq_ok.mpr ⟨_, hrun, rfl⟩
  | missing id => cases h

end Printers

/-! ## §3 Levels side by side -/

section Levels

variable {rs : RenderStore} {free : Limits}

/-- The traversal without the limits has no more levels than the depth limit leaves. -/
def Below (free : Limits) (levels depth : Nat) : Prop :=
  free = .unlimited → depth + levels ≤ displayDepthLimit

theorem Below.next {levels depth : Nat} (h : Below free (levels + 1) depth) :
    Below free levels (depth + 1) := by
  intro hfree
  have := h hfree
  omega

/-- Both traversals reach the depth limit together. -/
theorem Below.reached {levels depth : Nat} (h : Below free (levels + 1) depth) :
    Limits.display.reached depth = free.reached depth := by
  cases free with
  | unlimited =>
    have hbelow := h rfl
    simp only [Limits.reached, decide_eq_false_iff_not]
    omega
  | display => rfl
  | depthOnly => rfl

/-- A walk to a displayed tag that finishes without the limits finds the same tag under
    them. -/
theorem displayedTag_limited (c : RenderContext) (levels : Nat) :
    (∀ more id limit depth tag, levels ≤ more → Below free levels depth →
      renderTagWithLimit rs free c levels id limit depth = .ok tag →
      renderTagWithLimit rs .display c.limited more id limit depth = .ok tag) ∧
    (∀ more recipe mapper limit depth tag, levels ≤ more → Below free levels depth →
      declaredRecipeTagWithMapper rs free c levels recipe mapper limit depth = .ok tag →
      declaredRecipeTagWithMapper rs .display c.limited more recipe mapper limit depth =
        .ok tag) := by
  induction levels with
  | zero =>
    constructor
    · intro more id limit depth tag _ _ h
      rw [renderTagWithLimit] at h
      cases h
    · intro more recipe mapper limit depth tag _ _ h
      rw [declaredRecipeTagWithMapper] at h
      cases h
  | succ levels ih =>
    obtain ⟨ihType, ihRecipe⟩ := ih
    constructor
    · intro more id limit depth tag hmore hbelow h
      obtain ⟨more, rfl⟩ : ∃ n, more = n + 1 := ⟨more - 1, by omega⟩
      have hle : levels ≤ more := by omega
      unfold renderTagWithLimit at h ⊢
      -- below the limits the walk does not stop
      rw [hbelow.reached]
      split_ifs at h ⊢
      · exact h
      cases hparam : rs.store.typeParam id with
      | some parameter =>
        simp only [hparam] at h ⊢
        obtain ⟨found, hfound, hrest⟩ := bind_eq_ok.mp h
        refine bind_eq_ok.mpr ⟨found, hfound, ?_⟩
        rcases found with _ | ⟨layer, ty | recipe⟩
        · exact hrest
        · exact ihType more ty layer _ tag hle hbelow.next hrest
        · exact ihRecipe more recipe [] layer _ tag hle hbelow.next hrest
      | none =>
        simp only [hparam] at h ⊢
        cases hdeclared : rs.store.declaredType id with
        | some declared =>
          simp only [hdeclared] at h ⊢
          exact ihRecipe more _ _ _ _ tag hle hbelow.next h
        | none =>
          simp only [hdeclared] at h ⊢
          exact h
    · intro more recipe mapper limit depth tag hmore hbelow h
      obtain ⟨more, rfl⟩ : ∃ n, more = n + 1 := ⟨more - 1, by omega⟩
      have hle : levels ≤ more := by omega
      unfold declaredRecipeTagWithMapper at h ⊢
      cases hnode : (rs.store.declaredRecipe recipe).map DeclaredTypeRecipe.node with
      | none =>
        simp only [hnode] at h ⊢
        exact h
      | some node =>
        simp only [hnode] at h ⊢
        cases node with
        | type ty =>
          simp only at h ⊢
          split at h
          · exact ihType more _ _ _ tag hle hbelow.next h
          · exact ihType more _ _ _ tag hle hbelow.next h
        | array element => exact h
        | tuple elements rest => exact h
        | readonly operand => exact h
        | application template parameters arguments =>
          exact ihType more _ _ _ tag hle hbelow.next h

theorem renderTag_limited {levels more : Nat} {binding : RenderBinding} {c : RenderContext}
    {tag : TypeTag} (hmore : levels ≤ more) (hbelow : Below free levels c.depth)
    (h : renderTag rs free levels binding c = .ok tag) :
    renderTag rs .display more binding c.limited = .ok tag := by
  obtain ⟨htype, hrecipe⟩ := @displayedTag_limited rs free c levels
  cases binding with
  | type id => exact htype more id _ _ tag hmore hbelow h
  | recipe recipe => exact hrecipe more recipe [] _ _ tag hmore hbelow h

/-- The guard in front of a call, side by side. -/
theorem enterLevel_limited {node node' : RenderContext → Except RenderStop RenderContext}
    {c c' : RenderContext} (hfree : free ≠ .display)
    (hreached : Limits.display.reached c.depth = free.reached c.depth)
    (houtcome : Outcome rs free (Grows free) c (enterLevel free node c))
    (hnode : ∀ c₁, free.reached c.depth = false → node { c with depth := c.depth + 1 } = .ok c₁ →
      node' { c with depth := c.depth + 1 }.limited = .ok c₁.limited)
    (h : enterLevel free node c = .ok c') :
    enterLevel .display node' c.limited = .ok c'.limited := by
  rw [h] at houtcome
  unfold enterLevel at h ⊢
  split_ifs with htruncated hdepth
  · exact congrArg Except.ok
      (limited_eq_of_truncated houtcome.1 houtcome.2 htruncated).symm
  all_goals
    have hopen : ¬ c.display.truncated = true := fun hstopped =>
      htruncated (shown_truncated hstopped)
    rw [if_neg hopen] at h
  · -- both stop, and the other one has written too little for a cut
    rw [if_pos (hreached.symm.trans hdepth)] at h
    cases h
    have hshort : c.display.output.length ≤ displayCharLimit := by
      refine Nat.not_lt.mp (fun hlong => htruncated ?_)
      show (shown c.display).truncated = true
      rw [shown_of_lt hlong]
      exact Buffer.view_truncated.mpr hlong
    have hstopped : shown (c.stopAtDepthLimit free).display =
        Buffer.collapse displayCharLimit ellipsis := by
      cases free with
      | display => exact absurd rfl hfree
      | unlimited => exact if_pos ⟨rfl, hshort⟩
      | depthOnly => exact if_pos ⟨rfl, hshort⟩
    exact congrArg Except.ok (by
      simp only [RenderContext.limited, hstopped]
      rfl)
  · have hbelow : ¬ free.reached c.depth = true := fun hlimit => hdepth (hreached.trans hlimit)
    rw [if_neg hbelow] at h
    obtain ⟨c₁, hrun, heq⟩ := map_eq_ok.mp h
    subst heq
    exact map_eq_ok.mpr ⟨_, hnode c₁ (by simpa using hbelow) hrun, rfl⟩

theorem renderBinding_of_truncated {limits : Limits} {levels : Nat} {widen : Bool}
    {binding : RenderBinding} {c : RenderContext} (h : c.display.truncated = true) :
    renderBinding rs limits levels widen binding c = .ok c := by
  cases levels with
  | zero => exact if_pos h
  | succ levels => exact if_pos h

/-- **A call that finishes without the limits finishes under them**, with what they make of
    its display. -/
theorem renderBinding_limited (hfree : free ≠ .display) (levels more : Nat) (widen : Bool)
    (binding : RenderBinding) (c c' : RenderContext) (hmore : levels ≤ more) (hc : c.InRange)
    (hbelow : Below free levels c.depth) (hfuel : Fuelled free 0 levels c.depth)
    (h : renderBinding rs free levels widen binding c = .ok c') :
    renderBinding rs .display more widen binding c.limited = .ok c'.limited := by
  have houtcome := renderBinding_spec (grows_rule rs hfree) levels widen binding c hc hfuel
  induction levels generalizing more widen binding c c' with
  | zero =>
    -- without a level only a call in a display that stopped returns
    have hstopped : c.display.truncated = true := by
      by_contra hopen
      cases free with
      | display => exact hfree rfl
      | unlimited =>
        simp [renderBinding, enterLevel, hopen, Limits.reached] at h
        cases h
      | depthOnly =>
        have hlevels := hfuel (by decide)
        omega
    cases (renderBinding_of_truncated hstopped).symm.trans h
    exact renderBinding_of_truncated (shown_truncated hstopped)
  | succ levels ih =>
    obtain ⟨more, rfl⟩ : ∃ n, more = n + 1 := ⟨more - 1, by omega⟩
    have hle : levels ≤ more := by omega
    refine enterLevel_limited hfree hbelow.reached houtcome (fun c₁ hopen hrun => ?_) h
    have hfuelled := hfuel.next hopen
    have hspec : ∀ below c₂, c₂.InRange → c₂.depth = c.depth + 1 →
        Outcome rs free (Grows free) c₂ (renderBinding rs free levels false below c₂) :=
      fun below c₂ hrange hdepth => renderBinding_spec (grows_rule rs hfree) levels false below c₂
        hrange (hdepth ▸ hfuelled)
    refine Print.run_limited hfree hspec ?_ ?_ ?_ (nodePrint_fromStore widen binding) hc rfl hrun
    · intro below c₂ stop hrange hdepth hstop
      exact renderTag_stopsAt hrange (hdepth ▸ hfuelled) hstop
    · intro below c₂ c₃ hrange hdepth hcall
      exact ih more false below c₂ c₃ hle hrange (hdepth ▸ hbelow.next) (hdepth ▸ hfuelled) hcall
        (hspec below c₂ hrange hdepth)
    · intro below c₂ tag hdepth htag
      exact renderTag_limited hle (hdepth ▸ hbelow.next) htag

end Levels

/-! ## §4 The display of a type -/

section Display

variable (rs : RenderStore) (id : TypeId) (widen : Bool)

theorem fuelled_start {limits : Limits} : Fuelled limits 0 (displayDepthLimit + 2) 0 :=
  fun _ => ⟨Nat.zero_le _, Nat.le_of_eq (Nat.zero_add _).symm⟩

theorem StopsAt.dangling {limits : Limits} {stop : RenderStop} (h : StopsAt rs limits stop)
    (hlimits : limits ≠ .unlimited) :
    ∃ missing, stop = .dangling missing ∧ rs.store.tag missing = none :=
  h.resolve_right (fun hunlimited => hlimits hunlimited.1)

/-- A traversal that is not unlimited stops at an id that is out of range and nowhere else. -/
theorem dangling_of_renderTypeInner {limits : Limits} (hlimits : limits ≠ .unlimited)
    {stop : RenderStop}
    (h : renderTypeInner rs limits (displayDepthLimit + 2) id widen {} = .error stop) :
    ∃ missing, stop = .dangling missing ∧ rs.store.tag missing = none := by
  have hrule : DisplayRule rs limits (fun _ _ => True) :=
    ⟨fun _ => trivial, fun _ _ _ _ _ => trivial, fun _ _ _ => trivial, fun _ _ => trivial⟩
  have houtcome := renderBinding_spec hrule _ widen (.type id) {} (Nat.le_refl 0) fuelled_start
  unfold renderTypeInner at h
  rw [h] at houtcome
  exact houtcome.dangling rs hlimits

/-- The display is the cut of what the traversal without the limits displays. -/
theorem renderType_eq_cut {text : Text}
    (h : renderUnlimited rs displayDepthLimit id widen = .ok text) :
    renderType rs id widen = .ok (cut displayCharLimit ellipsis text) := by
  obtain ⟨c, hrun, rfl⟩ := map_eq_ok.mp h
  have hfree : Limits.unlimited ≠ .display := by decide
  have hfuel : Fuelled .unlimited 0 displayDepthLimit 0 := fun hlimits => absurd rfl hlimits
  have houtcome := renderBinding_spec (grows_rule rs hfree) displayDepthLimit widen (.type id) {}
    (Nat.le_refl 0) hfuel
  rw [show renderBinding rs .unlimited displayDepthLimit widen (.type id) {} = .ok c from hrun]
    at houtcome
  refine map_eq_ok.mpr ⟨c.limited, ?_, ?_⟩
  · exact renderBinding_limited hfree displayDepthLimit (displayDepthLimit + 2) widen (.type id)
      {} c (Nat.le_add_right _ 2) (Nat.le_refl 0) (fun _ => Nat.le_refl _) hfuel hrun
  · show (shown c.display).output = _
    rw [shown_of_open (houtcome.2.1 rfl)]
    exact Buffer.view_output

/-- **The display is what the limits make of the texts that the traversal reaches**: dots when
    it nests too deep before they are cut, and their cut otherwise. -/
theorem renderType_eq_reached {written : Text} {deep : Bool}
    (h : renderReached rs id widen = .ok (written, deep)) :
    renderType rs id widen =
      .ok (if deep = true ∧ written.length ≤ displayCharLimit then ellipsis
        else cut displayCharLimit ellipsis written) := by
  obtain ⟨c, hrun, heq⟩ := map_eq_ok.mp h
  cases heq
  refine map_eq_ok.mpr ⟨c.limited, ?_, ?_⟩
  · exact renderBinding_limited (by decide) (displayDepthLimit + 2) (displayDepthLimit + 2) widen
      (.type id) {} c (Nat.le_refl _) (Nat.le_refl 0) (fun hlimits => absurd hlimits (by decide))
      fuelled_start hrun
  · show (shown c.display).output = _
    unfold shown
    split_ifs
    · rfl
    · exact Buffer.view_output

/-- **Type rendering is bounded and truncates exactly.**  It stops at an id that is out of
    range and nowhere else, every call within leaves the overlay stack as it found it, the
    text has at most 320 characters, and it is the text of the traversal without the limits,
    cut to its first 317 characters and three dots when it is too long. -/
theorem render_type_bounded_and_exact :
    (∀ stop, renderType rs id widen = .error stop →
      ∃ missing, stop = .dangling missing ∧ rs.store.tag missing = none) ∧
    (∀ levels binding (c : RenderContext), c.overlayLimit ≤ c.overlays.length → c.depth ≤ 64 →
      66 ≤ c.depth + levels →
      (∀ stop, renderBinding rs .display levels widen binding c = .error stop →
        ∃ missing, stop = .dangling missing ∧ rs.store.tag missing = none) ∧
      (∀ c', renderBinding rs .display levels widen binding c = .ok c' →
        c'.overlays = c.overlays ∧ c'.overlayLimit = c.overlayLimit ∧
          c'.rendering = c.rendering ∧ c'.depth = c.depth)) ∧
    (∀ text, renderType rs id widen = .ok text → text.length ≤ 320) ∧
    (∀ text, renderUnlimited rs 64 id widen = .ok text →
      renderType rs id widen =
        .ok (if text.length ≤ 320 then text else text.take 317 ++ made "...".toList)) := by
  refine ⟨fun stop h => ?_, fun levels binding c hrange hdepth hlevels => ⟨fun stop h => ?_,
    fun c' h => ?_⟩, fun text h => ?_, fun text h => renderType_eq_cut rs id widen h⟩
  · unfold renderType at h
    cases hrun : renderTypeInner rs .display (displayDepthLimit + 2) id widen {} with
    | error _ =>
      rw [hrun] at h
      cases h
      exact dangling_of_renderTypeInner rs id widen (by decide) hrun
    | ok c =>
      rw [hrun] at h
      cases h
  · have hcall := renderBinding_spec (fits_rule rs) levels widen binding c hrange
      (fun _ => ⟨hdepth, hlevels⟩)
    rw [h] at hcall
    exact hcall.dangling rs (by decide)
  · have hcall := renderBinding_spec (fits_rule rs) levels widen binding c hrange
      (fun _ => ⟨hdepth, hlevels⟩)
    rw [h] at hcall
    exact ⟨hcall.1.overlays, hcall.1.overlayLimit, hcall.1.rendering, hcall.1.depth⟩
  · obtain ⟨c, hrun, rfl⟩ := map_eq_ok.mp h
    have hwhole := renderBinding_spec (fits_rule rs) _ widen (.type id) {} (Nat.le_refl 0)
      fuelled_start
    unfold renderTypeInner at hrun
    rw [hrun] at hwhole
    exact (hwhole.2 ⟨Nat.zero_le _, fun _ => rfl⟩).within

/-- The display of a tuple of forty elements is cut. -/
theorem render_type_bounded_and_exact_cut :
    ∃ (interner : Interner) (text : Text), interner.Reachable (fun _ => 0) ∧
      text.length = 440 ∧ renderUnlimited ⟨interner.store, {}⟩ 64 19 false = .ok text ∧
      renderType ⟨interner.store, {}⟩ 19 false =
        .ok (text.take 317 ++ made "...".toList) := by
  obtain ⟨reached, hrun, hfacts⟩ := exists_of_run
    (r := runHistory (fun _ => 0) 0 [.internTuple (List.replicate 40 6)]
      (Interner.withIntrinsics (fun _ => 0)))
    (P := fun reached => renderUnlimited ⟨reached.2.store, {}⟩ 64 19 false =
      .ok (made ("[undefined".toList ++ (List.replicate 39 ", undefined".toList).flatten ++ [']'])))
    (by decide +kernel)
  have hlength : (made ("[undefined".toList ++
      (List.replicate 39 ", undefined".toList).flatten ++ [']'])).length = 440 := by
    decide +kernel
  have hdisplay := (render_type_bounded_and_exact ⟨reached.2.store, {}⟩ 19 false).2.2.2 _ hfacts
  rw [if_neg (by rw [hlength]; decide)] at hdisplay
  exact ⟨reached.2, _, ⟨0, _, reached.1, hrun⟩, hlength, hfacts, hdisplay⟩

end Display

end Typokat.Diagnostics
